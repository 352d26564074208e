import G2way.Lib.JsonRead
import Mathlib.Data.List.Basic
import Mathlib.Tactic.Common

/-!
# The lexical grammar of GraphQL

A text of the GraphQL language is a list of lexical tokens with ignored characters
between them: blanks, line ends, commas, comments and the byte order mark. Any
character may stand in a string or a comment.

## The model

`nextToken` reads one token from the front of a text, `skipIgnored` drops what is
ignored before it, and `tokenize` does both to the end. A quoted string is read to
its value, the escapes resolved; of a block string the escaped quotes are resolved
and its indentation is left as it is.

## What is proved

Texts are read piece by piece. `Reads a ts` says the text `a` is read as the tokens
`ts` whatever stands behind it, and `Ends a ts` that it is so before a delimiter, as
a name is; the `append` lemmas put pieces together.
-/

namespace G2way.Lib.GraphQl

/-! ### Characters -/

/-- A line feed or a carriage return. -/
def isLineTerminator (c : Char) : Bool := c == '\n' || c == '\r'

/-- What stands between tokens, comments apart. -/
def isIgnored (c : Char) : Bool :=
  c == ' ' || c == '\t' || c == ',' || c == Char.ofNat 0xFEFF || isLineTerminator c

/-- A punctuator of one character. -/
def isPunctuator (c : Char) : Bool :=
  c == '!' || c == '$' || c == '&' || c == '(' || c == ')' || c == ':' || c == '=' || c == '@' || c == '[' ||
    c == ']' || c == '{' || c == '|' || c == '}'

/-- A letter or the underscore. -/
def isNameStart (c : Char) : Bool := c.isAlpha || c == '_'

/-- A letter, a digit or the underscore. -/
def isNameContinue (c : Char) : Bool := c.isAlpha || c.isDigit || c == '_'

/-- A name, as a text. -/
def isNameText : List Char → Bool
  | [] => false
  | c :: rest => isNameStart c && rest.all isNameContinue

/-- A name. -/
structure Name where
  text : String
  isName : isNameText text.toList = true
  deriving DecidableEq

/-! ### Tokens -/

/-- A lexical token. -/
inductive Token where
  /-- A punctuator of one character. -/
  | punctuator (c : Char)
  /-- `...`. -/
  | spread
  /-- A name. -/
  | name (n : Name)
  /-- An int or a float, as it is written. -/
  | number (text : String)
  /-- A quoted string, by its value. -/
  | string (value : String)
  /-- A block string, its escaped quotes resolved. -/
  | block (raw : String)
  deriving DecidableEq

/-! ### Numbers -/

/-- The digits at the front of a text, and the rest of it; there must be one. -/
def digits (s : List Char) : Option (List Char × List Char) :=
  if (s.takeWhile Char.isDigit).isEmpty then none
  else some (s.takeWhile Char.isDigit, s.dropWhile Char.isDigit)

/-- An integer part: no digit stands behind a first `0`. -/
def integerPart : List Char → Option (List Char × List Char)
  | '-' :: rest => do
    let (ds, rest) ← digits rest
    if ds.head? = some '0' ∧ ds.length ≠ 1 then none else some ('-' :: ds, rest)
  | s => do
    let (ds, rest) ← digits s
    if ds.head? = some '0' ∧ ds.length ≠ 1 then none else some (ds, rest)

/-- A fractional part, if there is one. -/
def fractionalPart : List Char → Option (List Char × List Char)
  | '.' :: rest => do
    let (ds, rest) ← digits rest
    return ('.' :: ds, rest)
  | s => some ([], s)

/-- The sign of an exponent, if there is one. -/
def exponentSign : List Char → List Char × List Char
  | '+' :: rest => (['+'], rest)
  | '-' :: rest => (['-'], rest)
  | s => ([], s)

/-- An exponent part, if there is one. -/
def exponentPart : List Char → Option (List Char × List Char)
  | [] => some ([], [])
  | c :: rest =>
    if c = 'e' ∨ c = 'E' then do
      let (ds, after) ← digits (exponentSign rest).2
      return (c :: ((exponentSign rest).1 ++ ds), after)
    else some ([], c :: rest)

/-- An int or a float. Neither a digit, a point nor a name may follow. -/
def number (s : List Char) : Option (Token × List Char) := do
  let (i, rest) ← integerPart s
  let (f, rest) ← fractionalPart rest
  let (e, rest) ← exponentPart rest
  if rest.head?.any fun c => isNameContinue c || c == '.' then none
  else some (.number (String.ofList (i ++ f ++ e)), rest)

/-! ### Strings -/

/-- The value of a hexadecimal digit. -/
def hexDigit (c : Char) : Option ℕ :=
  if '0' ≤ c ∧ c ≤ '9' then some (c.toNat - 48)
  else if 'a' ≤ c ∧ c ≤ 'f' then some (c.toNat - 87)
  else if 'A' ≤ c ∧ c ≤ 'F' then some (c.toNat - 55)
  else none

/-- The number some hexadecimal digits are. -/
def hexNumber (s : List Char) : Option ℕ := do
  let ds ← s.mapM hexDigit
  return ds.foldl (fun n d => 16 * n + d) 0

/-- The character with that code point, if it is a scalar value. -/
def scalarValue (n : ℕ) : Option Char := if n.isValidChar then some (Char.ofNat n) else none

/-- Four hexadecimal digits, and the rest of the text. -/
def fourDigits : List Char → Option (ℕ × List Char)
  | a :: b :: c :: d :: rest => (hexNumber [a, b, c, d]).map (·, rest)
  | _ => none

/-- The character a surrogate pair stands for. -/
def surrogatePair (lead trail : ℕ) : Option Char :=
  if 0xDC00 ≤ trail ∧ trail < 0xE000 then scalarValue (0x10000 + (lead - 0xD800) * 0x400 + (trail - 0xDC00))
  else none

/-- An escaped code point, from behind `\u`: in braces, or of four digits, where two may make a
surrogate pair. -/
def escapedUnicode : List Char → Option (Char × List Char)
  | '{' :: rest => do
    let ds := rest.takeWhile (· != '}')
    let n ← hexNumber ds
    let c ← scalarValue n
    if ds.isEmpty then none else some (c, (rest.dropWhile (· != '}')).tail)
  | s => do
    let (lead, rest) ← fourDigits s
    match rest with
    | '\\' :: 'u' :: rest' =>
      if 0xD800 ≤ lead ∧ lead < 0xDC00 then do
        let (trail, rest'') ← fourDigits rest'
        let c ← surrogatePair lead trail
        return (c, rest'')
      else (scalarValue lead).map (·, rest)
    | _ => (scalarValue lead).map (·, rest)

/-- What a short escape stands for. -/
def escapedCharacter (c : Char) : Option Char :=
  if c = '"' ∨ c = '\\' ∨ c = '/' then some c
  else if c = 'b' then some (Char.ofNat 8)
  else if c = 'f' then some (Char.ofNat 12)
  else if c = 'n' then some (Char.ofNat 10)
  else if c = 'r' then some (Char.ofNat 13)
  else if c = 't' then some (Char.ofNat 9)
  else none

/-- A character of a quoted string. -/
def stringCharacter : List Char → Option (Char × List Char)
  | [] => none
  | c :: rest =>
    if c = '\\' then
      match rest with
      | [] => none
      | e :: rest => if e = 'u' then escapedUnicode rest else (escapedCharacter e).map (·, rest)
    else if isLineTerminator c then none
    else some (c, rest)

/-- A quoted string to its closing quote. -/
def quoted : ℕ → List Char → Option (List Char × List Char)
  | 0, _ => none
  | fuel + 1, s =>
    if s.head? = some '"' then some ([], s.tail)
    else do
      let (c, rest) ← stringCharacter s
      let (cs, rest) ← quoted fuel rest
      return (c :: cs, rest)

/-- A block string to its closing quotes; escaped quotes stand in it. -/
def blockString : List Char → Option (List Char × List Char)
  | '"' :: '"' :: '"' :: rest => some ([], rest)
  | '\\' :: '"' :: '"' :: '"' :: rest => (blockString rest).map fun p => ('"' :: '"' :: '"' :: p.1, p.2)
  | c :: rest => (blockString rest).map fun p => (c :: p.1, p.2)
  | [] => none

/-- A string, from behind its first quote. -/
def stringToken : List Char → Option (Token × List Char)
  | '"' :: '"' :: rest => (blockString rest).map fun p => (.block (String.ofList p.1), p.2)
  | s => (quoted (s.length + 1) s).map fun p => (.string (String.ofList p.1), p.2)

/-! ### The text as tokens -/

theorem isNameText_takeWhile {c : Char} (h : isNameStart c = true) (rest : List Char) :
    isNameText (String.ofList (c :: rest.takeWhile isNameContinue)).toList = true := by
  rw [String.toList_ofList, isNameText, h, Bool.true_and]
  exact List.all_takeWhile

/-- The token at the front of a text. -/
def nextToken : List Char → Option (Token × List Char)
  | [] => none
  | c :: rest =>
    if isPunctuator c then some (.punctuator c, rest)
    else if h : isNameStart c = true then
      some (.name ⟨String.ofList (c :: rest.takeWhile isNameContinue), isNameText_takeWhile h rest⟩,
        rest.dropWhile isNameContinue)
    else if c = '"' then stringToken rest
    else if c = '.' then (if rest.take 2 = ['.', '.'] then some (.spread, rest.drop 2) else none)
    else number (c :: rest)

/-- What is left of a text when the ignored characters at its front are dropped; the flag says a
comment is open. -/
def skipIgnored : Bool → List Char → List Char
  | _, [] => []
  | true, c :: rest => skipIgnored (!isLineTerminator c) rest
  | false, c :: rest =>
    if c = '#' then skipIgnored true rest
    else if isIgnored c then skipIgnored false rest
    else c :: rest

/-! ### A token takes characters -/

theorem length_digits {s ds rest : List Char} (h : digits s = some (ds, rest)) : rest.length < s.length := by
  simp only [digits, Option.ite_none_left_eq_some, Option.some.injEq, Prod.mk.injEq, List.isEmpty_iff] at h
  obtain ⟨hne, rfl, rfl⟩ := h
  have hlen := congrArg List.length (List.takeWhile_append_dropWhile (p := Char.isDigit) (l := s))
  have hpos := List.length_pos_iff.2 hne
  rw [List.length_append] at hlen
  omega

theorem length_integerPart {s ds rest : List Char} (h : integerPart s = some (ds, rest)) :
    rest.length < s.length := by
  unfold integerPart at h
  split at h
  all_goals
    simp only [bind, Option.bind_eq_some_iff, Option.ite_none_left_eq_some, Option.some.injEq, Prod.mk.injEq] at h
    obtain ⟨⟨ds', rest'⟩, hds, -, -, rfl⟩ := h
    have hlt := length_digits hds
    simp only [List.length_cons]
    omega

theorem length_fractionalPart {s ds rest : List Char} (h : fractionalPart s = some (ds, rest)) :
    rest.length ≤ s.length := by
  unfold fractionalPart at h
  split at h
  · simp only [bind, pure, Option.bind_eq_some_iff, Option.some.injEq, Prod.mk.injEq] at h
    obtain ⟨⟨ds', rest'⟩, hds, -, rfl⟩ := h
    have hlt := length_digits hds
    simp only [List.length_cons]
    omega
  · cases h
    exact Nat.le_refl _

theorem length_exponentSign (s : List Char) : (exponentSign s).2.length ≤ s.length := by
  unfold exponentSign
  split <;> simp

theorem length_exponentPart {s ds rest : List Char} (h : exponentPart s = some (ds, rest)) :
    rest.length ≤ s.length := by
  unfold exponentPart at h
  split at h
  · cases h
    exact Nat.le_refl _
  · rename_i c after
    split at h
    · simp only [bind, pure, Option.bind_eq_some_iff, Option.some.injEq, Prod.mk.injEq] at h
      obtain ⟨⟨ds', rest'⟩, hds, -, rfl⟩ := h
      have hlt := length_digits hds
      have hsign := length_exponentSign after
      simp only [List.length_cons]
      omega
    · cases h
      exact Nat.le_refl _

theorem length_number {s rest : List Char} {t : Token} (h : number s = some (t, rest)) : rest.length < s.length := by
  simp only [number, bind, Option.bind_eq_some_iff, Option.ite_none_left_eq_some, Option.some.injEq,
    Prod.mk.injEq] at h
  obtain ⟨⟨i, r₁⟩, hi, ⟨f, r₂⟩, hf, ⟨e, r₃⟩, he, -, -, rfl⟩ := h
  have h₁ : r₁.length < s.length := length_integerPart hi
  have h₂ : r₂.length ≤ r₁.length := length_fractionalPart hf
  have h₃ : r₃.length ≤ r₂.length := length_exponentPart he
  show r₃.length < s.length
  omega

theorem length_fourDigits {s rest : List Char} {n : ℕ} (h : fourDigits s = some (n, rest)) :
    rest.length < s.length := by
  unfold fourDigits at h
  split at h
  · simp only [Option.map_eq_some_iff, Prod.mk.injEq] at h
    obtain ⟨n, -, -, rfl⟩ := h
    simp only [List.length_cons]
    omega
  · cases h

theorem length_escapedUnicode {s rest : List Char} {c : Char} (h : escapedUnicode s = some (c, rest)) :
    rest.length ≤ s.length := by
  unfold escapedUnicode at h
  split at h
  · rename_i s'
    simp only [bind, Option.bind_eq_some_iff, Option.ite_none_left_eq_some, Option.some.injEq, Prod.mk.injEq] at h
    obtain ⟨n, -, c, -, -, -, rfl⟩ := h
    have hle := (List.dropWhile_suffix (p := (· != '}')) (l := s')).length_le
    simp only [List.length_tail, List.length_cons]
    omega
  · simp only [bind, Option.bind_eq_some_iff] at h
    obtain ⟨⟨lead, r₁⟩, hlead, h⟩ := h
    have h₁ := length_fourDigits hlead
    split at h
    · rename_i r₂ heq
      simp only at heq
      subst heq
      split at h
      · simp only [pure, Option.bind_eq_some_iff, Option.some.injEq, Prod.mk.injEq] at h
        obtain ⟨⟨trail, r₃⟩, htrail, c, -, -, rfl⟩ := h
        have h₂ := length_fourDigits htrail
        simp only [List.length_cons] at h₁
        show r₃.length ≤ s.length
        omega
      · simp only [Option.map_eq_some_iff, Prod.mk.injEq] at h
        obtain ⟨c, -, -, rfl⟩ := h
        exact Nat.le_of_lt h₁
    · simp only [Option.map_eq_some_iff, Prod.mk.injEq] at h
      obtain ⟨c, -, -, rfl⟩ := h
      exact Nat.le_of_lt h₁

theorem length_stringCharacter {s rest : List Char} {c : Char} (h : stringCharacter s = some (c, rest)) :
    rest.length ≤ s.length := by
  cases s with
  | nil => cases h
  | cons d s =>
    simp only [stringCharacter] at h
    split_ifs at h
    · cases s with
      | nil => cases h
      | cons e s =>
        simp only at h
        split_ifs at h
        · have hle := length_escapedUnicode h
          simp only [List.length_cons]
          omega
        · simp only [Option.map_eq_some_iff, Prod.mk.injEq] at h
          obtain ⟨c, -, -, rfl⟩ := h
          simp only [List.length_cons]
          omega
    · cases h
      simp

theorem length_quoted {fuel : ℕ} {s cs rest : List Char} (h : quoted fuel s = some (cs, rest)) :
    rest.length ≤ s.length := by
  induction fuel generalizing s cs with
  | zero => cases h
  | succ fuel ih =>
    rw [quoted] at h
    split_ifs at h
    · cases h
      simp
    · simp only [bind, pure, Option.bind_eq_some_iff, Option.some.injEq, Prod.mk.injEq] at h
      obtain ⟨⟨c, r₁⟩, hc, ⟨cs', r₂⟩, hcs, -, rfl⟩ := h
      exact Nat.le_trans (ih hcs) (length_stringCharacter hc)

theorem length_blockString {s raw rest : List Char} (h : blockString s = some (raw, rest)) :
    rest.length ≤ s.length := by
  fun_induction blockString s generalizing raw with
  | case1 s =>
    cases h
    simp only [List.length_cons]
    omega
  | case2 s ih =>
    simp only [Option.map_eq_some_iff, Prod.mk.injEq] at h
    obtain ⟨⟨raw', rest'⟩, hs, -, rfl⟩ := h
    have hle : rest'.length ≤ s.length := ih hs
    simp only [List.length_cons]
    omega
  | case3 c s _ _ ih =>
    simp only [Option.map_eq_some_iff, Prod.mk.injEq] at h
    obtain ⟨⟨raw', rest'⟩, hs, -, rfl⟩ := h
    have hle : rest'.length ≤ s.length := ih hs
    simp only [List.length_cons]
    omega
  | case4 => cases h

theorem length_stringToken {s rest : List Char} {t : Token} (h : stringToken s = some (t, rest)) :
    rest.length ≤ s.length := by
  unfold stringToken at h
  split at h
  · simp only [Option.map_eq_some_iff, Prod.mk.injEq] at h
    obtain ⟨⟨raw, rest'⟩, hs, -, rfl⟩ := h
    have hle := length_blockString hs
    simp only [List.length_cons]
    omega
  · simp only [Option.map_eq_some_iff, Prod.mk.injEq] at h
    obtain ⟨⟨cs, rest'⟩, hs, -, rfl⟩ := h
    exact length_quoted hs

theorem length_nextToken {s rest : List Char} {t : Token} (h : nextToken s = some (t, rest)) :
    rest.length < s.length := by
  cases s with
  | nil => cases h
  | cons c s =>
    simp only [nextToken] at h
    split_ifs at h with _ _ _ _ _
    · cases h
      simp
    · cases h
      have hle := (List.dropWhile_suffix (p := isNameContinue) (l := s)).length_le
      simp only [List.length_cons]
      omega
    · have hle := length_stringToken h
      simp only [List.length_cons]
      omega
    · cases h
      simp only [List.length_drop, List.length_cons]
      omega
    · exact length_number h

theorem length_skipIgnored (comment : Bool) (s : List Char) : (skipIgnored comment s).length ≤ s.length := by
  induction s generalizing comment with
  | nil => cases comment <;> simp [skipIgnored]
  | cons c s ih =>
    cases comment with
    | true => exact Nat.le_trans (ih _) (Nat.le_succ _)
    | false =>
      simp only [skipIgnored]
      split_ifs
      · exact Nat.le_trans (ih _) (Nat.le_succ _)
      · exact Nat.le_trans (ih _) (Nat.le_succ _)
      · exact Nat.le_refl _

/-- The tokens of a text. -/
def tokenize (s : List Char) : Option (List Token) :=
  if (skipIgnored false s).isEmpty then some []
  else
    match _h : nextToken (skipIgnored false s) with
    | none => none
    | some (t, rest) => (tokenize rest).map (t :: ·)
termination_by s.length
decreasing_by exact Nat.lt_of_lt_of_le (length_nextToken (by assumption)) (length_skipIgnored false s)

/-! ### What a text begins with -/

/-- The ignored characters are skipped, and then there is a token or nothing. -/
theorem tokenize_eq (s : List Char) :
    tokenize s = if (skipIgnored false s).isEmpty then some []
      else (nextToken (skipIgnored false s)).bind fun p => (tokenize p.2).map (p.1 :: ·) := by
  rw [tokenize]
  split
  · rfl
  · split
    · rename_i heq
      rw [heq]
      rfl
    · rename_i heq
      rw [heq]
      rfl

theorem tokenize_nil : tokenize [] = some [] := by
  rw [tokenize_eq]
  rfl

/-- What is ignored does not count. -/
theorem tokenize_ignored {c : Char} (h : isIgnored c = true) (s : List Char) : tokenize (c :: s) = tokenize s := by
  have hne : c ≠ '#' := by
    rintro rfl
    cases h
  have hskip : skipIgnored false (c :: s) = skipIgnored false s := by
    rw [skipIgnored, if_neg hne, if_pos h]
  rw [tokenize_eq, tokenize_eq s, hskip]

/-- A token at the front of a text is read. -/
theorem tokenize_cons {c : Char} {s rest : List Char} {t : Token} (hi : isIgnored c = false) (hne : c ≠ '#')
    (h : nextToken (c :: s) = some (t, rest)) : tokenize (c :: s) = (tokenize rest).map (t :: ·) := by
  have hskip : skipIgnored false (c :: s) = c :: s := by
    rw [skipIgnored, if_neg hne, hi, if_neg Bool.false_ne_true]
  rw [tokenize_eq, hskip, h]
  rfl

/-- A punctuator is nothing else. -/
theorem isPunctuator_only {c : Char} (h : isPunctuator c = true) :
    isIgnored c = false ∧ c ≠ '#' ∧ isNameContinue c = false ∧ c ≠ '"' := by
  simp only [isPunctuator, Bool.or_eq_true, beq_iff_eq] at h
  rcases h with (((((((((((rfl | rfl) | rfl) | rfl) | rfl) | rfl) | rfl) | rfl) | rfl) | rfl) | rfl) | rfl) | rfl
  all_goals decide

/-- An ignored character is nothing else. -/
theorem isIgnored_only {c : Char} (h : isIgnored c = true) : isNameContinue c = false ∧ c ≠ '"' := by
  simp only [isIgnored, isLineTerminator, Bool.or_eq_true, beq_iff_eq] at h
  rcases h with (((rfl | rfl) | rfl) | rfl) | rfl | rfl
  all_goals decide

theorem isNameContinue_of_start {c : Char} (h : isNameStart c = true) : isNameContinue c = true := by
  simp only [isNameStart, isNameContinue, Bool.or_eq_true] at h ⊢
  rcases h with h | h
  · exact .inl (.inl h)
  · exact .inr h

theorem tokenize_punctuator {c : Char} (h : isPunctuator c = true) (s : List Char) :
    tokenize (c :: s) = (tokenize s).map (.punctuator c :: ·) := by
  obtain ⟨hi, hne, -, -⟩ := isPunctuator_only h
  refine tokenize_cons hi hne ?_
  rw [nextToken, if_pos h]

/-- What may stand behind a name or a literal: nothing, a punctuator, or an ignored character. -/
def Delimited (s : List Char) : Prop := ∀ c ∈ s.head?, isPunctuator c = true ∨ isIgnored c = true

theorem Delimited.head {s : List Char} (h : Delimited s) :
    ∀ c ∈ s.head?, isNameContinue c = false ∧ c ≠ '"' := by
  intro c hc
  rcases h c hc with hp | hi
  · exact (isPunctuator_only hp).2.2
  · exact isIgnored_only hi

theorem takeWhile_append_of_all {α : Type} {p : α → Bool} {l s : List α} (hl : l.all p = true)
    (hs : ∀ a ∈ s.head?, p a = false) : (l ++ s).takeWhile p = l ∧ (l ++ s).dropWhile p = s := by
  have hstop : s.takeWhile p = [] ∧ s.dropWhile p = s := by
    cases s with
    | nil => exact ⟨rfl, rfl⟩
    | cons a s =>
      have ha : p a = false := hs a rfl
      exact ⟨List.takeWhile_cons_of_neg (by simp [ha]), List.dropWhile_cons_of_neg (by simp [ha])⟩
  have hall : ∀ a ∈ l, p a = true := List.all_eq_true.1 hl
  rw [List.takeWhile_append_of_pos hall, List.dropWhile_append_of_pos hall, hstop.1, hstop.2, List.append_nil]
  exact ⟨rfl, rfl⟩

theorem tokenize_name (n : Name) {s : List Char} (h : Delimited s) :
    tokenize (n.text.toList ++ s) = (tokenize s).map (.name n :: ·) := by
  obtain ⟨text, hname⟩ := n
  obtain ⟨c, cs, htext⟩ : ∃ c cs, text.toList = c :: cs := by
    cases hl : text.toList with
    | nil =>
      rw [hl] at hname
      cases hname
    | cons c cs => exact ⟨c, cs, rfl⟩
  have hboth : isNameStart c = true ∧ cs.all isNameContinue = true := by
    rw [htext] at hname
    simpa only [isNameText, Bool.and_eq_true] using hname
  have hcont := isNameContinue_of_start hboth.1
  have hsplit := takeWhile_append_of_all hboth.2 fun a ha => (h.head a ha).1
  have hp : isPunctuator c = false := by
    by_contra hp
    rw [(isPunctuator_only (by simpa using hp)).2.2.1] at hcont
    cases hcont
  have hi : isIgnored c = false := by
    by_contra hi
    rw [(isIgnored_only (by simpa using hi)).1] at hcont
    cases hcont
  have hne : c ≠ '#' := by
    rintro rfl
    cases hboth.1
  have htoken : nextToken (c :: (cs ++ s)) = some (.name ⟨text, hname⟩, s) := by
    rw [nextToken, hp, if_neg Bool.false_ne_true, dif_pos hboth.1]
    simp only [hsplit.1, hsplit.2, ← htext, String.ofList_toList]
  show tokenize (text.toList ++ s) = _
  rw [htext]
  exact tokenize_cons hi hne htoken

/-! ### Strings -/

/-- A block string is one token, to its closing quotes. -/
theorem tokenize_block {s raw rest : List Char} (h : blockString s = some (raw, rest)) :
    tokenize ('"' :: '"' :: '"' :: s) = (tokenize rest).map (.block (String.ofList raw) :: ·) := by
  refine tokenize_cons (by decide) (by decide) ?_
  have hstring : stringToken ('"' :: '"' :: s) = some (.block (String.ofList raw), rest) := by
    rw [stringToken, h]
    rfl
  rw [← hstring]
  rfl

theorem hexDigit_hexLower : ∀ n < 16, hexDigit (Json.hexLower n) = some n := by decide

theorem scalarValue_toNat (c : Char) : scalarValue c.toNat = some c := by
  have hvalid : c.toNat.isValidChar := c.valid
  rw [scalarValue, if_pos hvalid, Char.ofNat_toNat]

/-- The long escape of a control character. -/
theorem escapedUnicode_control {c : Char} (h : c.toNat < 32) (rest : List Char) :
    escapedUnicode ('0' :: '0' :: Json.hexLower (c.toNat / 16) :: Json.hexLower (c.toNat % 16) :: rest) =
      some (c, rest) := by
  have hhi := hexDigit_hexLower (c.toNat / 16) (by omega)
  have hlo := hexDigit_hexLower (c.toNat % 16) (by omega)
  have hzero : hexDigit '0' = some 0 := by decide
  have hnumber : hexNumber ['0', '0', Json.hexLower (c.toNat / 16), Json.hexLower (c.toNat % 16)] =
      some c.toNat := by
    simp only [hexNumber, List.mapM_cons, List.mapM_nil, hzero, hhi, hlo, bind, pure, Option.bind_some,
      List.foldl_cons, List.foldl_nil, Option.some.injEq]
    omega
  have hdigits : fourDigits
      ('0' :: '0' :: Json.hexLower (c.toNat / 16) :: Json.hexLower (c.toNat % 16) :: rest) =
      some (c.toNat, rest) := by
    rw [fourDigits, hnumber]
    rfl
  rw [escapedUnicode]
  · rw [hdigits]
    simp only [bind, Option.bind_some]
    split
    · rw [if_neg (by omega), scalarValue_toNat]
      rfl
    · rw [scalarValue_toNat]
      rfl
  · intro s hs
    cases hs

/-- A character as JSON writes it in a string. -/
theorem stringCharacter_escapeChar (c : Char) (rest : List Char) :
    stringCharacter (Json.escapeChar c ++ rest) = some (c, rest) := by
  rw [Json.escapeChar]
  by_cases h₁ : c = '"'
  · rw [if_pos h₁, h₁]
    rfl
  by_cases h₂ : c = '\\'
  · rw [if_neg h₁, if_pos h₂, h₂]
    rfl
  rw [if_neg h₁, if_neg h₂]
  by_cases h₃ : c.toNat = 8
  · rw [if_pos h₃, Json.eq_ofNat h₃]
    rfl
  by_cases h₄ : c.toNat = 9
  · rw [if_neg h₃, if_pos h₄, Json.eq_ofNat h₄]
    rfl
  by_cases h₅ : c.toNat = 10
  · rw [if_neg h₃, if_neg h₄, if_pos h₅, Json.eq_ofNat h₅]
    rfl
  rw [if_neg h₃, if_neg h₄, if_neg h₅]
  by_cases h₆ : c.toNat = 12
  · rw [if_pos h₆, Json.eq_ofNat h₆]
    rfl
  by_cases h₇ : c.toNat = 13
  · rw [if_neg h₆, if_pos h₇, Json.eq_ofNat h₇]
    rfl
  rw [if_neg h₆, if_neg h₇]
  by_cases h₈ : c.toNat < 32
  · rw [if_pos h₈, ← escapedUnicode_control h₈ rest]
    rfl
  · have hline : isLineTerminator c = false := by
      simp only [isLineTerminator, Bool.or_eq_false_iff, beq_eq_false_iff_ne]
      constructor
      · rintro rfl
        exact h₈ (by decide)
      · rintro rfl
        exact h₈ (by decide)
    simp only [if_neg h₈, List.singleton_append, stringCharacter, if_neg h₂, hline, Bool.false_eq_true, if_false]

/-- A string as JSON writes it is read to its closing quote. -/
theorem quoted_flatMap (cs x : List Char) {fuel : ℕ} (h : cs.length < fuel) :
    quoted fuel (cs.flatMap Json.escapeChar ++ '"' :: x) = some (cs, x) := by
  induction cs generalizing fuel with
  | nil =>
    obtain ⟨fuel, rfl⟩ := Nat.exists_eq_add_one_of_ne_zero (Nat.ne_of_gt h)
    rfl
  | cons c cs ih =>
    obtain ⟨fuel, rfl⟩ := Nat.exists_eq_add_one_of_ne_zero (Nat.ne_of_gt (Nat.zero_lt_of_lt h))
    have hlen : cs.length < fuel := by simpa using h
    have hquote : (Json.escapeChar c ++ (cs.flatMap Json.escapeChar ++ '"' :: x)).head? ≠ some '"' := by
      intro hhead
      obtain ⟨y, hy⟩ := List.head?_eq_some_iff.1 hhead
      exact Json.escapeChar_ne_quote _ _ _ hy
    rw [List.flatMap_cons, List.append_assoc, quoted, if_neg hquote, stringCharacter_escapeChar]
    simp only [Option.bind_eq_bind, Option.bind_some, ih hlen, Option.pure_def]

/-- The JSON text of a string is one token, unless a quote stands behind it. -/
theorem tokenize_quoted (value : String) {rest : List Char} (h : ∀ c ∈ rest.head?, c ≠ '"') :
    tokenize ('"' :: (Json.writeString value ++ rest)) = (tokenize rest).map (.string value :: ·) := by
  refine tokenize_cons (by decide) (by decide) ?_
  have hblock : ∀ s, Json.writeString value ++ rest ≠ '"' :: '"' :: s := by
    intro s hs
    rw [Json.writeString] at hs
    cases hv : value.toList with
    | nil =>
      rw [hv] at hs
      have hrest : rest = '"' :: s := by simpa using hs
      exact h '"' (by rw [hrest]; rfl) rfl
    | cons c cs =>
      rw [hv, List.flatMap_cons, List.append_assoc, List.append_assoc] at hs
      exact Json.escapeChar_ne_quote _ _ _ hs
  have hlen := Json.length_lt_writeString value
  have hread : quoted ((Json.writeString value ++ rest).length + 1) (Json.writeString value ++ rest) =
      some (value.toList, rest) := by
    rw [Json.writeString, List.append_assoc, List.singleton_append]
    refine quoted_flatMap _ _ ?_
    rw [Json.writeString] at hlen
    simp only [List.length_append, List.length_cons, List.length_nil] at hlen ⊢
    omega
  have hstring : stringToken (Json.writeString value ++ rest) = some (.string value, rest) := by
    rw [stringToken, hread]
    · simp only [Option.map_some, String.ofList_toList]
    · exact hblock
  rw [← hstring]
  rfl

/-! ### Pieces of a text -/

/-- The text is read as those tokens, whatever stands behind it. -/
def Reads (a : String) (ts : List Token) : Prop :=
  ∀ rest, tokenize (a.toList ++ rest) = (tokenize rest).map (ts ++ ·)

/-- The text is read as those tokens before a delimiter. -/
def Ends (a : String) (ts : List Token) : Prop :=
  ∀ rest, Delimited rest → tokenize (a.toList ++ rest) = (tokenize rest).map (ts ++ ·)

/-- The text begins with a delimiter. -/
def Delimits (a : String) : Prop := ∃ c, a.toList.head? = some c ∧ (isPunctuator c = true ∨ isIgnored c = true)

variable {a b : String} {ta tb : List Token}

theorem Delimits.append (h : Delimits a) (rest : List Char) : Delimited (a.toList ++ rest) := by
  obtain ⟨c, hc, hkind⟩ := h
  intro d hd
  rw [List.head?_append, hc] at hd
  cases hd
  exact hkind

theorem Delimits.append_string (h : Delimits a) : Delimits (a ++ b) := by
  obtain ⟨c, hc, hkind⟩ := h
  refine ⟨c, ?_, hkind⟩
  rw [String.toList_append, List.head?_append, hc]
  rfl

theorem map_append_append (o : Option (List Token)) :
    (o.map (tb ++ ·)).map (ta ++ ·) = o.map (ta ++ tb ++ ·) := by
  cases o with
  | none => rfl
  | some ts => simp only [Option.map_some, List.append_assoc]

theorem Reads.ends (h : Reads a ta) : Ends a ta := fun rest _ => h rest

theorem Reads.empty : Reads "" [] := by
  intro rest
  cases htokens : tokenize rest with
  | none => simp [htokens]
  | some ts => simp [htokens]

theorem Reads.append (ha : Reads a ta) (hb : Reads b tb) : Reads (a ++ b) (ta ++ tb) := by
  intro rest
  rw [String.toList_append, List.append_assoc, ha, hb, map_append_append]

theorem Reads.append_ends (ha : Reads a ta) (hb : Ends b tb) : Ends (a ++ b) (ta ++ tb) := by
  intro rest hrest
  rw [String.toList_append, List.append_assoc, ha, hb rest hrest, map_append_append]

theorem Ends.append_reads (ha : Ends a ta) (hd : Delimits b) (hb : Reads b tb) : Reads (a ++ b) (ta ++ tb) := by
  intro rest
  rw [String.toList_append, List.append_assoc, ha _ (hd.append rest), hb, map_append_append]

theorem Ends.append (ha : Ends a ta) (hd : Delimits b) (hb : Ends b tb) : Ends (a ++ b) (ta ++ tb) := by
  intro rest hrest
  rw [String.toList_append, List.append_assoc, ha _ (hd.append rest), hb rest hrest, map_append_append]

/-- A text of its own is read when it is read before the end. -/
theorem Ends.tokenize (h : Ends a ta) : tokenize a.toList = some ta := by
  have hnil := h [] fun c hc => by cases hc
  rw [List.append_nil, tokenize_nil] at hnil
  simpa using hnil

theorem Ends.name (n : Name) : Ends n.text [.name n] := fun _ hrest => tokenize_name n hrest

theorem Ends.quoted (value : String) : Ends (String.ofList ('"' :: Json.writeString value)) [.string value] := by
  intro rest hrest
  rw [String.toList_ofList]
  exact tokenize_quoted value fun c hc => (hrest.head c hc).2

/-- A text of punctuators and ignored characters. -/
theorem Reads.marks (a : String) (h : a.toList.all (fun c => isPunctuator c || isIgnored c) = true) :
    Reads a ((a.toList.filter isPunctuator).map .punctuator) := by
  intro rest
  rw [List.all_eq_true] at h
  revert h
  induction a.toList with
  | nil => exact fun _ => Reads.empty rest
  | cons c cs ih =>
    intro h
    have htail := ih fun d hd => h d (List.mem_cons_of_mem _ hd)
    by_cases hp : isPunctuator c = true
    · rw [List.cons_append, tokenize_punctuator hp, htail, List.filter_cons_of_pos hp]
      cases tokenize rest <;> rfl
    · have hi : isIgnored c = true := by
        have hc := h c (List.mem_cons_self ..)
        rw [Bool.or_eq_true] at hc
        exact hc.resolve_left hp
      rw [List.cons_append, tokenize_ignored hi, htail, List.filter_cons_of_neg hp]

/-- What may be put behind a name: nothing, or a text that begins with a delimiter. -/
def Tail (b : String) (tb : List Token) : Prop := b = "" ∧ tb = [] ∨ Delimits b ∧ Ends b tb

theorem Ends.tail (ha : Ends a ta) (hb : Tail b tb) : Ends (a ++ b) (ta ++ tb) := by
  rcases hb with ⟨rfl, rfl⟩ | ⟨hd, hb⟩
  · rw [String.append_empty, List.append_nil]
    exact ha
  · exact ha.append hd hb

section Lists

variable {α : Type} {text : α → String} {tok : α → List Token} {l : List α}

/-- Texts one behind the other. -/
theorem Reads.join (h : ∀ x ∈ l, Reads (text x) (tok x)) : Reads (String.join (l.map text)) (l.flatMap tok) := by
  induction l with
  | nil => exact Reads.empty
  | cons x l ih =>
    rw [List.map_cons, String.join_cons, List.flatMap_cons]
    exact (h x (List.mem_cons_self ..)).append (ih fun y hy => h y (List.mem_cons_of_mem _ hy))

/-- Texts with a separator between them. -/
theorem Ends.intercalate {sep : String} {ts : List Token} {x : α} (hd : Delimits sep) (hsep : Reads sep ts)
    (h : ∀ y ∈ x :: l, Ends (text y) (tok y)) :
    Ends (sep.intercalate ((x :: l).map text)) (tok x ++ l.flatMap fun y => ts ++ tok y) := by
  induction l generalizing x with
  | nil =>
    rw [List.map_cons, List.map_nil, String.intercalate_singleton, List.flatMap_nil, List.append_nil]
    exact h x (List.mem_cons_self ..)
  | cons y l ih =>
    have htail := ih fun z hz => h z (List.mem_cons_of_mem _ hz)
    have hhead := (h x (List.mem_cons_self ..)).append_reads hd hsep
    rw [List.map_cons, List.map_cons, String.intercalate_cons_cons, List.flatMap_cons, ← List.map_cons,
      List.append_assoc, ← List.append_assoc]
    exact hhead.append_ends htail

end Lists

end G2way.Lib.GraphQl
