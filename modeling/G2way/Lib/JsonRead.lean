import G2way.Lib.Json
import Mathlib.Logic.Function.Basic

/-!
# Reading the compact text of JSON

A reader of the text that `Json.toText` writes, over an arbitrary reader of
numbers. It is driven by fuel, and the length of the text is enough: `read_toText`
reads back every value, with each number as the reader of numbers has it. So the
text determines the value (`toText_injective`), provided the text of a number
determines the number.
-/

namespace G2way.Lib.Json

variable {ν μ : Type}

/-! ### The numbers of a value -/

mutual

/-- The value with its numbers changed. -/
def map (f : ν → μ) : Json ν → Json μ
  | .null => .null
  | .bool b => .bool b
  | .number n => .number (f n)
  | .string s => .string s
  | .array items => .array (mapItems f items)
  | .object members => .object (mapMembers f members)

/-- The items of an array. -/
def mapItems (f : ν → μ) : List (Json ν) → List (Json μ)
  | [] => []
  | v :: rest => map f v :: mapItems f rest

/-- The members of an object. -/
def mapMembers (f : ν → μ) : List (String × Json ν) → List (String × Json μ)
  | [] => []
  | (k, v) :: rest => (k, map f v) :: mapMembers f rest

end

/-! ### The reader -/

/-- The characters of a string and what is behind its closing quote. -/
def readString : ℕ → List Char → Option (List Char × List Char)
  | 0, _ => none
  | fuel + 1, cs =>
    if cs.head? = some '"' then some ([], cs.tail)
    else do
      let (c, rest) ← unescape cs
      let (s, rest) ← readString fuel rest
      return (c :: s, rest)

/-- A word, or a number. -/
def readScalar (num : List Char → Option μ) : List Char → Option (Json μ × List Char)
  | 'n' :: 'u' :: 'l' :: 'l' :: rest => some (.null, rest)
  | 't' :: 'r' :: 'u' :: 'e' :: rest => some (.bool true, rest)
  | 'f' :: 'a' :: 'l' :: 's' :: 'e' :: rest => some (.bool false, rest)
  | cs => (num (cs.takeWhile isNumberChar)).map fun n => (.number n, cs.dropWhile isNumberChar)

mutual

/-- A value and what is behind it. -/
def readValue (num : List Char → Option μ) : ℕ → List Char → Option (Json μ × List Char)
  | 0, _ => none
  | _ + 1, [] => none
  | fuel + 1, c :: cs =>
    if c = '"' then (readString fuel cs).map fun p => (.string (String.ofList p.1), p.2)
    else if c = '[' then (readItems num fuel true cs).map fun p => (.array p.1, p.2)
    else if c = '{' then (readMembers num fuel true cs).map fun p => (.object p.1, p.2)
    else readScalar num (c :: cs)

/-- Items to the closing bracket. -/
def readItems (num : List Char → Option μ) : ℕ → Bool → List Char → Option (List (Json μ) × List Char)
  | 0, _, _ => none
  | fuel + 1, first, cs =>
    if cs.head? = some ']' then some ([], cs.tail)
    else if first ∨ cs.head? = some ',' then do
      let (v, rest) ← readValue num fuel (if first then cs else cs.tail)
      let (vs, rest) ← readItems num fuel false rest
      return (v :: vs, rest)
    else none

/-- Members to the closing brace. -/
def readMembers (num : List Char → Option μ) :
    ℕ → Bool → List Char → Option (List (String × Json μ) × List Char)
  | 0, _, _ => none
  | fuel + 1, first, cs =>
    if cs.head? = some '}' then some ([], cs.tail)
    else if first ∨ cs.head? = some ',' then
      match (if first then cs else cs.tail) with
      | '"' :: rest => do
        let (k, rest) ← readString fuel rest
        match rest with
        | ':' :: rest => do
          let (v, rest) ← readValue num fuel rest
          let (ms, rest) ← readMembers num fuel false rest
          return ((String.ofList k, v) :: ms, rest)
        | _ => none
      | _ => none
    else none

end

/-- The value a whole text is. -/
def read (num : List Char → Option μ) (text : List Char) : Option (Json μ) :=
  match readValue num text.length text with
  | some (v, []) => some v
  | _ => none

/-! ### Reading back -/

/-- A string is read to its closing quote. -/
theorem readString_flatMap (cs : List Char) (x : List Char) {fuel : ℕ} (h : cs.length < fuel) :
    readString fuel (cs.flatMap escapeChar ++ '"' :: x) = some (cs, x) := by
  induction cs generalizing fuel with
  | nil =>
    obtain ⟨fuel, rfl⟩ := Nat.exists_eq_add_one_of_ne_zero (Nat.ne_of_gt h)
    rfl
  | cons c cs ih =>
    obtain ⟨fuel, rfl⟩ := Nat.exists_eq_add_one_of_ne_zero (Nat.ne_of_gt (Nat.zero_lt_of_lt h))
    have hlen : cs.length < fuel := by simpa using h
    have hquote : (escapeChar c ++ (cs.flatMap escapeChar ++ '"' :: x)).head? ≠ some '"' := by
      intro hhead
      obtain ⟨y, hy⟩ := List.head?_eq_some_iff.1 hhead
      exact escapeChar_ne_quote _ _ _ hy
    rw [List.flatMap_cons, List.append_assoc, readString, if_neg hquote, unescape_escapeChar]
    simp only [Option.bind_eq_bind, Option.bind_some, ih hlen, Option.pure_def]

theorem escapeChar_ne_nil (c : Char) : escapeChar c ≠ [] := by
  intro h
  have hread := unescape_escapeChar c []
  rw [h] at hread
  cases hread

/-- A string's text is longer than the string. -/
theorem length_lt_writeString (s : String) : s.toList.length < (writeString s).length := by
  have hlist : ∀ cs : List Char, cs.length ≤ (cs.flatMap escapeChar).length := by
    intro cs
    induction cs with
    | nil => exact Nat.zero_le _
    | cons c cs ih =>
      have hc := List.length_pos_of_ne_nil (escapeChar_ne_nil c)
      simp only [List.flatMap_cons, List.length_append, List.length_cons]
      omega
  have hs := hlist s.toList
  simp only [writeString, List.length_append, List.length_singleton]
  omega

theorem readString_writeString (s : String) (x : List Char) {fuel : ℕ} (h : (writeString s).length ≤ fuel) :
    readString fuel (writeString s ++ x) = some (s.toList, x) := by
  have hlen := length_lt_writeString s
  rw [writeString, List.append_assoc]
  exact readString_flatMap _ _ (Nat.lt_of_lt_of_le hlen h)

/-- A number is read to the delimiter. -/
theorem readScalar_number {num : List Char → Option μ} {a x : List Char} {n : μ} (ha : a ≠ [])
    (hchars : ∀ c ∈ a, isNumberChar c = true) (hx : Ends x) (hnum : num a = some n) :
    readScalar num (a ++ x) = some (.number n, x) := by
  have hstop : x.takeWhile isNumberChar = [] ∧ x.dropWhile isNumberChar = x := by
    cases x with
    | nil => exact ⟨rfl, rfl⟩
    | cons c x => simp [hx.not_numberChar]
  have htake : (a ++ x).takeWhile isNumberChar = a := by
    rw [List.takeWhile_append_of_pos hchars, hstop.1, List.append_nil]
  have hdrop : (a ++ x).dropWhile isNumberChar = x := by
    rw [List.dropWhile_append_of_pos hchars, hstop.2]
  obtain ⟨c, a, rfl⟩ := List.exists_cons_of_ne_nil ha
  have hc : isNumberChar c = true := hchars c (List.mem_cons_self ..)
  unfold readScalar
  split
  case h_4 => rw [htake, hdrop, hnum]; rfl
  all_goals
    rename_i heq
    rw [List.cons_append, List.cons.injEq] at heq
    rw [heq.1] at hc
    exact absurd hc (by decide)

/-- How the numbers of a value are written and read. -/
structure NumberReader (d : ν → String) (num : List Char → Option μ) (f : ν → μ) : Prop where
  nonempty : ∀ n, (d n).toList ≠ []
  chars : ∀ n, ∀ c ∈ (d n).toList, isNumberChar c = true
  reads : ∀ n, num (d n).toList = some (f n)

theorem write_ne_nil {d : ν → String} {num : List Char → Option μ} {f : ν → μ} (hd : NumberReader d num f)
    (v : Json ν) : write d v ≠ [] := by
  cases v with
  | bool b => cases b <;> simp [write]
  | number n => exact hd.nonempty n
  | _ => simp [write]

theorem head?_write_ne {d : ν → String} {num : List Char → Option μ} {f : ν → μ} (hd : NumberReader d num f)
    (v : Json ν) (x : List Char) : (write d v ++ x).head? ≠ some ']' := by
  cases v with
  | bool b => cases b <;> simp [write]
  | number n =>
    intro h
    obtain ⟨c, cs, hcs⟩ := List.exists_cons_of_ne_nil (hd.nonempty n)
    have hc := hd.chars n c (by rw [hcs]; exact List.mem_cons_self ..)
    rw [write, hcs, List.cons_append, List.head?_cons, Option.some.injEq] at h
    rw [h] at hc
    exact absurd hc (by decide)
  | _ => simp [write]

mutual

/-- A value in front of a delimiter is read back. -/
theorem readValue_write {d : ν → String} {num : List Char → Option μ} {f : ν → μ} (hd : NumberReader d num f) :
    ∀ (v : Json ν) {x : List Char} {fuel : ℕ}, Ends x → (write d v).length ≤ fuel →
      readValue num fuel (write d v ++ x) = some (v.map f, x) := by
  intro v x fuel hx hfuel
  have hpos := List.length_pos_of_ne_nil (write_ne_nil hd v)
  obtain ⟨fuel, rfl⟩ := Nat.exists_eq_add_one_of_ne_zero (Nat.ne_of_gt (Nat.lt_of_lt_of_le hpos hfuel))
  cases v with
  | null => simp [write, readValue, readScalar, map]
  | bool b => cases b <;> simp [write, readValue, readScalar, map]
  | number n =>
    have hread := readScalar_number (hd.nonempty n) (hd.chars n) hx (hd.reads n)
    obtain ⟨c, cs, hcs⟩ := List.exists_cons_of_ne_nil (hd.nonempty n)
    have hc := hd.chars n c (by rw [hcs]; exact List.mem_cons_self ..)
    have hne : ∀ e, isNumberChar e = false → c ≠ e := by
      rintro e he rfl
      exact absurd (hc.symm.trans he) (by decide)
    rw [hcs, List.cons_append] at hread
    rw [write, hcs, List.cons_append, readValue, if_neg (hne _ (by decide)), if_neg (hne _ (by decide)),
      if_neg (hne _ (by decide)), hread, map]
  | string s =>
    rw [write, List.length_cons] at hfuel
    rw [write, List.cons_append, readValue, if_pos rfl, readString_writeString s x (by omega)]
    simp [map]
  | array items =>
    rw [write, List.length_cons] at hfuel
    rw [write, List.cons_append, readValue, if_neg (by decide), if_pos rfl,
      readItems_writeItems hd true items (by omega)]
    rfl
  | object members =>
    rw [write, List.length_cons] at hfuel
    rw [write, List.cons_append, readValue, if_neg (by decide), if_neg (by decide), if_pos rfl,
      readMembers_writeMembers hd true members (by omega)]
    rfl

theorem readItems_writeItems {d : ν → String} {num : List Char → Option μ} {f : ν → μ}
    (hd : NumberReader d num f) : ∀ (first : Bool) (vs : List (Json ν)) {x : List Char} {fuel : ℕ},
      (writeItems d first vs).length ≤ fuel →
      readItems num fuel first (writeItems d first vs ++ x) = some (mapItems f vs, x) := by
  intro first vs x fuel hfuel
  cases vs with
  | nil =>
    rw [writeItems, List.length_singleton] at hfuel
    obtain ⟨fuel, rfl⟩ := Nat.exists_eq_add_one_of_ne_zero (Nat.ne_of_gt hfuel)
    simp [writeItems, readItems, mapItems]
  | cons v vs =>
    have hpos := List.length_pos_of_ne_nil (write_ne_nil hd v)
    have hlen : (write d v).length + (writeItems d false vs).length ≤ fuel := by
      cases first <;> simp only [writeItems, List.length_cons, List.length_append] at hfuel <;> omega
    obtain ⟨fuel, rfl⟩ := Nat.exists_eq_add_one_of_ne_zero (show fuel ≠ 0 by omega)
    have hrest : 0 < (writeItems d false vs).length := by cases vs <;> simp [writeItems]
    have hvalue := readValue_write hd v (ends_writeItems d vs x) (show (write d v).length ≤ fuel by omega)
    have hitems := readItems_writeItems hd false vs (x := x) (show (writeItems d false vs).length ≤ fuel by omega)
    cases first with
    | true =>
      rw [writeItems, List.append_assoc, readItems, if_neg (head?_write_ne hd v _), if_pos (.inl rfl), if_pos rfl,
        hvalue]
      simp [hitems, mapItems]
    | false =>
      rw [writeItems, List.cons_append, List.append_assoc, readItems, if_neg (by simp), if_pos (.inr rfl)]
      simp [hvalue, hitems, mapItems]

theorem readMembers_writeMembers {d : ν → String} {num : List Char → Option μ} {f : ν → μ}
    (hd : NumberReader d num f) : ∀ (first : Bool) (ms : List (String × Json ν)) {x : List Char} {fuel : ℕ},
      (writeMembers d first ms).length ≤ fuel →
      readMembers num fuel first (writeMembers d first ms ++ x) = some (mapMembers f ms, x) := by
  intro first ms x fuel hfuel
  cases ms with
  | nil =>
    rw [writeMembers, List.length_singleton] at hfuel
    obtain ⟨fuel, rfl⟩ := Nat.exists_eq_add_one_of_ne_zero (Nat.ne_of_gt hfuel)
    simp [writeMembers, readMembers, mapMembers]
  | cons m ms =>
    obtain ⟨k, v⟩ := m
    have hlen : (writeString k).length + (write d v).length + (writeMembers d false ms).length + 2 ≤ fuel := by
      cases first <;> simp only [writeMembers, List.length_cons, List.length_append] at hfuel <;> omega
    obtain ⟨fuel, rfl⟩ := Nat.exists_eq_add_one_of_ne_zero (show fuel ≠ 0 by omega)
    have hkey := readString_writeString k (':' :: (write d v ++ (writeMembers d false ms ++ x)))
      (show (writeString k).length ≤ fuel by omega)
    have hvalue := readValue_write hd v (ends_writeMembers d ms x) (show (write d v).length ≤ fuel by omega)
    have hmembers := readMembers_writeMembers hd false ms (x := x)
      (show (writeMembers d false ms).length ≤ fuel by omega)
    cases first with
    | true => simp [writeMembers, readMembers, mapMembers, hkey, hvalue, hmembers]
    | false => simp [writeMembers, readMembers, mapMembers, hkey, hvalue, hmembers]

end

/-- **The text of a value is read back.** -/
theorem read_toText {d : ν → String} {num : List Char → Option μ} {f : ν → μ} (hd : NumberReader d num f)
    (v : Json ν) : read num (toText d v).toList = some (v.map f) := by
  have hvalue := readValue_write hd v (show Ends [] from trivial) (Nat.le_refl (write d v).length)
  rw [List.append_nil] at hvalue
  rw [toText, String.toList_ofList, read, hvalue]

/-! ### The text determines the value -/

mutual

theorem map_id : ∀ v : Json ν, v.map id = v
  | .null => rfl
  | .bool _ => rfl
  | .number _ => rfl
  | .string _ => rfl
  | .array items => by rw [map, mapItems_id items]
  | .object members => by rw [map, mapMembers_id members]

theorem mapItems_id : ∀ vs : List (Json ν), mapItems id vs = vs
  | [] => rfl
  | v :: vs => by rw [mapItems, map_id v, mapItems_id vs]

theorem mapMembers_id : ∀ ms : List (String × Json ν), mapMembers id ms = ms
  | [] => rfl
  | (k, v) :: ms => by rw [mapMembers, map_id v, mapMembers_id ms]

end

/-- Numbers that their text determines can be read. -/
theorem NumberText.reader {d : ν → String} (hd : NumberText d) :
    NumberReader d (fun cs => Function.partialInv d (String.ofList cs)) id where
  nonempty := hd.nonempty
  chars := hd.chars
  reads n := by
    rw [String.ofList_toList]
    exact Function.partialInv_left hd.injective n

/-- **The text of a value determines it.** -/
theorem toText_injective {d : ν → String} (hd : NumberText d) : Function.Injective (toText d) := by
  intro v w h
  have hv := read_toText hd.reader v
  have hw := read_toText hd.reader w
  rw [map_id] at hv hw
  rw [h] at hv
  exact Option.some.inj (hv.symm.trans hw)

theorem toText_ne_empty {d : ν → String} (hd : NumberText d) (v : Json ν) : toText d v ≠ "" := by
  intro h
  exact write_ne_nil hd.reader v (by simpa [toText] using congrArg String.toList h)

/-! ### Natural numbers -/

/-- A number written with digits only. -/
def readNat (cs : List Char) : Option ℕ :=
  if cs ≠ [] ∧ cs.all Char.isDigit then some (Nat.ofDigitChars 10 cs 0) else none

theorem numberReader_readNat (f : ℕ → μ) :
    NumberReader (toString : ℕ → String) (fun cs => (readNat cs).map f) f where
  nonempty n := by
    rw [Nat.toString_eq_repr, Nat.toList_repr]
    exact Nat.toDigits_ne_nil
  chars n c hc := by
    rw [Nat.toString_eq_repr, Nat.toList_repr] at hc
    have hdigit := Nat.isDigit_of_mem_toDigits (by decide) (by decide) hc
    simp [isNumberChar, hdigit]
  reads n := by
    rw [Nat.toString_eq_repr, Nat.toList_repr]
    have hdigits : (Nat.toDigits 10 n).all Char.isDigit = true :=
      List.all_eq_true.2 fun c hc => Nat.isDigit_of_mem_toDigits (by decide) (by decide) hc
    rw [readNat, if_pos ⟨Nat.toDigits_ne_nil, hdigits⟩, Nat.ofDigitChars_ten_toDigits]
    rfl

end G2way.Lib.Json
