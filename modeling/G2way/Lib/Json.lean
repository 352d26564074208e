import Mathlib.Data.List.Basic
import Mathlib.Tactic.Common

/-!
# JSON values

JSON over an arbitrary type of numbers. As a parser leaves it, an object has its
members in the order of the text, duplicates included (`Json`). As a map-based
value type keeps it, an object has one member for each key, in the order of the
keys, and of duplicates the last is the one that counts; `canonical` makes such a
value, reading each number with a function that may refuse it;
`canonicalOpening` does so too, but one key makes an object stand for what the text
under it is.

`toText` is the compact text of a value. It is one line (`newline_not_mem_toText`),
since a control character in a string is escaped and the text of a number is made of
digits, signs, points and exponents (`NumberText`).
-/

namespace G2way.Lib

/-- A JSON value. -/
inductive Json (ν : Type) where
  /-- `null`. -/
  | null
  /-- `true` or `false`. -/
  | bool (b : Bool)
  /-- A number. -/
  | number (n : ν)
  /-- A string. -/
  | string (s : String)
  /-- An array. -/
  | array (items : List (Json ν))
  /-- An object. -/
  | object (members : List (String × Json ν))

namespace Json

variable {ν μ : Type}

/-! ### Canonical values -/

/-- Puts a member in its place by key, unless the key has one. -/
def insertMember (k : String) (v : Json ν) : List (String × Json ν) → List (String × Json ν)
  | [] => [(k, v)]
  | (k', v') :: rest =>
    if k = k' then (k', v') :: rest
    else if k < k' then (k, v) :: (k', v') :: rest
    else (k', v') :: insertMember k v rest

mutual

/-- The value with each object's members by key, the last of duplicates kept, and the numbers read
with `f`. -/
def canonical (f : ν → Option μ) : Json ν → Option (Json μ)
  | .null => some .null
  | .bool b => some (.bool b)
  | .number n => (f n).map .number
  | .string s => some (.string s)
  | .array items => (canonicalItems f items).map .array
  | .object members => (canonicalMembers f members).map .object

/-- The items of an array. -/
def canonicalItems (f : ν → Option μ) : List (Json ν) → Option (List (Json μ))
  | [] => some []
  | v :: rest => do
    let v ← canonical f v
    let rest ← canonicalItems f rest
    return v :: rest

/-- The members of an object. -/
def canonicalMembers (f : ν → Option μ) : List (String × Json ν) → Option (List (String × Json μ))
  | [] => some []
  | (k, v) :: rest => do
    let v ← canonical f v
    let rest ← canonicalMembers f rest
    return insertMember k v rest

end

/-- The text an object hides, if it begins with the key `token`; it must be the only member, and a
string. -/
def hiddenText (token : String) : List (String × Json ν) → Option (Option String)
  | [] => none
  | (k, v) :: rest =>
    if k = token then
      match v, rest with
      | .string text, [] => some (some text)
      | _, _ => some none
    else none

mutual

/-- As `canonical`, but an object that begins with the key `token` is what `inner` reads its text as. -/
def canonicalOpening (token : String) (inner : String → Option (Json μ)) (f : ν → Option μ) :
    Json ν → Option (Json μ)
  | .null => some .null
  | .bool b => some (.bool b)
  | .number n => (f n).map .number
  | .string s => some (.string s)
  | .array items => (canonicalItemsOpening token inner f items).map .array
  | .object members =>
    match hiddenText token members with
    | some text => text.bind inner
    | none => (canonicalMembersOpening token inner f members).map .object

/-- The items of an array. -/
def canonicalItemsOpening (token : String) (inner : String → Option (Json μ)) (f : ν → Option μ) :
    List (Json ν) → Option (List (Json μ))
  | [] => some []
  | v :: rest => do
    let v ← canonicalOpening token inner f v
    let rest ← canonicalItemsOpening token inner f rest
    return v :: rest

/-- The members of an object. -/
def canonicalMembersOpening (token : String) (inner : String → Option (Json μ)) (f : ν → Option μ) :
    List (String × Json ν) → Option (List (String × Json μ))
  | [] => some []
  | (k, v) :: rest => do
    let v ← canonicalOpening token inner f v
    let rest ← canonicalMembersOpening token inner f rest
    return insertMember k v rest

end

/-! ### The compact text -/

/-- A lowercase hexadecimal digit. -/
def hexLower (n : ℕ) : Char := if n < 10 then Char.ofNat (48 + n) else Char.ofNat (87 + n)

/-- A character of a string: quotes, backslashes and control characters are escaped. -/
def escapeChar (c : Char) : List Char :=
  if c = '"' then ['\\', '"']
  else if c = '\\' then ['\\', '\\']
  else if c.toNat = 8 then ['\\', 'b']
  else if c.toNat = 9 then ['\\', 't']
  else if c.toNat = 10 then ['\\', 'n']
  else if c.toNat = 12 then ['\\', 'f']
  else if c.toNat = 13 then ['\\', 'r']
  else if c.toNat < 32 then ['\\', 'u', '0', '0', hexLower (c.toNat / 16), hexLower (c.toNat % 16)]
  else [c]

/-- A string, from behind its opening quote. -/
def writeString (s : String) : List Char := s.toList.flatMap escapeChar ++ ['"']

mutual

/-- The compact text of a value, given the text of a number. -/
def write (d : ν → String) : Json ν → List Char
  | .null => ['n', 'u', 'l', 'l']
  | .bool true => ['t', 'r', 'u', 'e']
  | .bool false => ['f', 'a', 'l', 's', 'e']
  | .number n => (d n).toList
  | .string s => '"' :: writeString s
  | .array items => '[' :: writeItems d true items
  | .object members => '{' :: writeMembers d true members

/-- Items to the closing bracket, with a comma before each but the first. -/
def writeItems (d : ν → String) : Bool → List (Json ν) → List Char
  | _, [] => [']']
  | true, v :: rest => write d v ++ writeItems d false rest
  | false, v :: rest => ',' :: (write d v ++ writeItems d false rest)

/-- Members to the closing brace, with a comma before each but the first. -/
def writeMembers (d : ν → String) : Bool → List (String × Json ν) → List Char
  | _, [] => ['}']
  | true, (k, v) :: rest => '"' :: (writeString k ++ ':' :: (write d v ++ writeMembers d false rest))
  | false, (k, v) :: rest => ',' :: '"' :: (writeString k ++ ':' :: (write d v ++ writeMembers d false rest))

end

/-- `to_string`. -/
def toText (d : ν → String) (v : Json ν) : String := String.ofList (write d v)

/-! ### Strings can be read back -/

/-- The value of a lowercase hexadecimal digit. -/
def hexValue (c : Char) : ℕ := if c.toNat < 58 then c.toNat - 48 else c.toNat - 87

/-- Reads one character of a string. -/
def unescape : List Char → Option (Char × List Char)
  | '\\' :: '"' :: rest => some ('"', rest)
  | '\\' :: '\\' :: rest => some ('\\', rest)
  | '\\' :: 'b' :: rest => some (Char.ofNat 8, rest)
  | '\\' :: 't' :: rest => some (Char.ofNat 9, rest)
  | '\\' :: 'n' :: rest => some (Char.ofNat 10, rest)
  | '\\' :: 'f' :: rest => some (Char.ofNat 12, rest)
  | '\\' :: 'r' :: rest => some (Char.ofNat 13, rest)
  | '\\' :: 'u' :: '0' :: '0' :: a :: b :: rest => some (Char.ofNat (16 * hexValue a + hexValue b), rest)
  | c :: rest => some (c, rest)
  | [] => none

theorem hexValue_hexLower : ∀ n < 16, hexValue (hexLower n) = n := by decide

theorem eq_ofNat {c : Char} {n : ℕ} (h : c.toNat = n) : c = Char.ofNat n := by
  rw [← h, Char.ofNat_toNat]

/-- What a character is written as: a short escape, a long one, or itself. -/
theorem escapeChar_cases (c : Char) :
    (∃ e, escapeChar c = ['\\', e] ∧ e ≠ '\n' ∧ ∀ rest, unescape ('\\' :: e :: rest) = some (c, rest)) ∨
    (c.toNat < 32 ∧ escapeChar c = ['\\', 'u', '0', '0', hexLower (c.toNat / 16), hexLower (c.toNat % 16)]) ∨
    (c ≠ '\\' ∧ 32 ≤ c.toNat ∧ escapeChar c = [c]) := by
  rw [escapeChar]
  by_cases h₁ : c = '"'
  · rw [if_pos h₁, h₁]
    exact .inl ⟨'"', rfl, by decide, fun _ => rfl⟩
  by_cases h₂ : c = '\\'
  · rw [if_neg h₁, if_pos h₂, h₂]
    exact .inl ⟨'\\', rfl, by decide, fun _ => rfl⟩
  rw [if_neg h₁, if_neg h₂]
  by_cases h₃ : c.toNat = 8
  · rw [if_pos h₃, eq_ofNat h₃]
    exact .inl ⟨'b', rfl, by decide, fun _ => rfl⟩
  by_cases h₄ : c.toNat = 9
  · rw [if_neg h₃, if_pos h₄, eq_ofNat h₄]
    exact .inl ⟨'t', rfl, by decide, fun _ => rfl⟩
  by_cases h₅ : c.toNat = 10
  · rw [if_neg h₃, if_neg h₄, if_pos h₅, eq_ofNat h₅]
    exact .inl ⟨'n', rfl, by decide, fun _ => rfl⟩
  rw [if_neg h₃, if_neg h₄, if_neg h₅]
  by_cases h₆ : c.toNat = 12
  · rw [if_pos h₆, eq_ofNat h₆]
    exact .inl ⟨'f', rfl, by decide, fun _ => rfl⟩
  by_cases h₇ : c.toNat = 13
  · rw [if_neg h₆, if_pos h₇, eq_ofNat h₇]
    exact .inl ⟨'r', rfl, by decide, fun _ => rfl⟩
  by_cases h₈ : c.toNat < 32
  · rw [if_neg h₆, if_neg h₇, if_pos h₈]
    exact .inr (.inl ⟨h₈, rfl⟩)
  · rw [if_neg h₆, if_neg h₇, if_neg h₈]
    exact .inr (.inr ⟨h₂, Nat.le_of_not_lt h₈, rfl⟩)

/-- A character that is no backslash stands for itself. -/
theorem unescape_of_ne {c : Char} (h : c ≠ '\\') (rest : List Char) : unescape (c :: rest) = some (c, rest) := by
  unfold unescape
  split
  case h_9 heq => rw [(List.cons.inj heq).1, (List.cons.inj heq).2]
  case h_10 heq => cases heq
  all_goals
    rename_i heq
    exact absurd (List.cons.inj heq).1 h

/-- An escaped character is read back. -/
theorem unescape_escapeChar (c : Char) (rest : List Char) : unescape (escapeChar c ++ rest) = some (c, rest) := by
  rcases escapeChar_cases c with ⟨e, he, -, hread⟩ | ⟨hlt, he⟩ | ⟨hne, -, he⟩
  · rw [he]
    exact hread rest
  · have hhi := hexValue_hexLower (c.toNat / 16) (by omega)
    have hlo := hexValue_hexLower (c.toNat % 16) (by omega)
    have hlong : ∀ a b, unescape ('\\' :: 'u' :: '0' :: '0' :: a :: b :: rest) =
        some (Char.ofNat (16 * hexValue a + hexValue b), rest) := fun _ _ => rfl
    rw [he]
    refine (hlong _ _).trans ?_
    rw [hhi, hlo, Nat.div_add_mod, Char.ofNat_toNat]
  · rw [he]
    exact unescape_of_ne hne rest

/-- An escaped character does not begin with a quote. -/
theorem escapeChar_ne_quote (c : Char) (x y : List Char) : escapeChar c ++ x ≠ '"' :: y := by
  intro h
  have hread := unescape_escapeChar c x
  rw [h, show unescape ('"' :: y) = some ('"', y) from rfl] at hread
  simp only [Option.some.injEq, Prod.mk.injEq] at hread
  rw [← hread.1] at h
  simp [escapeChar] at h

/-! ### Numbers -/

/-- The characters of a number. -/
def isNumberChar (c : Char) : Bool := c.isDigit || c == '-' || c == '+' || c == '.' || c == 'e'

/-- What the text of a number has to be like. -/
structure NumberText (d : ν → String) : Prop where
  injective : Function.Injective d
  nonempty : ∀ n, (d n).toList ≠ []
  chars : ∀ n, ∀ c ∈ (d n).toList, isNumberChar c = true

/-- What may stand after a value: nothing, or a delimiter. -/
def Ends : List Char → Prop
  | [] => True
  | c :: _ => c = ',' ∨ c = ']' ∨ c = '}'

theorem Ends.not_numberChar {c : Char} {x : List Char} (h : Ends (c :: x)) : isNumberChar c = false := by
  rcases h with rfl | rfl | rfl
  · decide
  · decide
  · decide

theorem ends_writeItems (d : ν → String) (vs : List (Json ν)) (x : List Char) :
    Ends (writeItems d false vs ++ x) := by
  cases vs with
  | nil => exact .inr (.inl rfl)
  | cons v vs => exact .inl rfl

theorem ends_writeMembers (d : ν → String) (ms : List (String × Json ν)) (x : List Char) :
    Ends (writeMembers d false ms ++ x) := by
  cases ms with
  | nil => exact .inr (.inr rfl)
  | cons m ms => exact .inl rfl

/-! ### It is one line -/

theorem hexLower_ne_newline : ∀ n < 16, hexLower n ≠ '\n' := by decide

theorem newline_not_mem_escapeChar (c : Char) : '\n' ∉ escapeChar c := by
  rcases escapeChar_cases c with ⟨e, he, hne, -⟩ | ⟨hlt, he⟩ | ⟨-, hle, he⟩
  · rw [he]
    simp [Ne.symm hne]
  · have hhi := hexLower_ne_newline (c.toNat / 16) (by omega)
    have hlo := hexLower_ne_newline (c.toNat % 16) (by omega)
    rw [he]
    simp [Ne.symm hhi, Ne.symm hlo]
  · rw [he, List.mem_singleton]
    rintro rfl
    exact absurd hle (by decide)

theorem newline_not_mem_writeString (s : String) : '\n' ∉ writeString s := by
  simp [writeString, newline_not_mem_escapeChar]

mutual

theorem newline_not_mem_write {d : ν → String} (hd : NumberText d) : ∀ v : Json ν, '\n' ∉ write d v
  | .null => by simp [write]
  | .bool true => by simp [write]
  | .bool false => by simp [write]
  | .number n => fun h => absurd (hd.chars n _ h) (by decide)
  | .string s => by simp [write, newline_not_mem_writeString]
  | .array items => by simp [write, newline_not_mem_writeItems hd true items]
  | .object members => by simp [write, newline_not_mem_writeMembers hd true members]

theorem newline_not_mem_writeItems {d : ν → String} (hd : NumberText d) :
    ∀ (first : Bool) (vs : List (Json ν)), '\n' ∉ writeItems d first vs
  | true, [] => by simp [writeItems]
  | false, [] => by simp [writeItems]
  | true, v :: vs => by
    simp [writeItems, newline_not_mem_write hd v, newline_not_mem_writeItems hd false vs]
  | false, v :: vs => by
    simp [writeItems, newline_not_mem_write hd v, newline_not_mem_writeItems hd false vs]

theorem newline_not_mem_writeMembers {d : ν → String} (hd : NumberText d) :
    ∀ (first : Bool) (ms : List (String × Json ν)), '\n' ∉ writeMembers d first ms
  | true, [] => by simp [writeMembers]
  | false, [] => by simp [writeMembers]
  | true, (k, v) :: ms => by
    simp [writeMembers, newline_not_mem_writeString, newline_not_mem_write hd v,
      newline_not_mem_writeMembers hd false ms]
  | false, (k, v) :: ms => by
    simp [writeMembers, newline_not_mem_writeString, newline_not_mem_write hd v,
      newline_not_mem_writeMembers hd false ms]

end

theorem newline_not_mem_toText {d : ν → String} (hd : NumberText d) (v : Json ν) : '\n' ∉ (toText d v).toList := by
  simpa [toText] using newline_not_mem_write hd v

end Json

end G2way.Lib
