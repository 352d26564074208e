import G2way.Lib.Text

/-!
# HTTP messages

The part of the `http` crate the gateway's layers read: header values are bytes,
of which only visible ASCII reads as text (`HeaderValue::to_str`); a header map
is a multimap from lowercase names to values in the order they were received;
`get` reads the first value of a name and `get_all` every one.
-/

namespace G2way.Core

open G2way.Lib

/-- The bytes of one header line's value. -/
abbrev HeaderValue := List UInt8

namespace HeaderValue

/-- `is_visible_ascii`. -/
def isVisibleAscii (b : UInt8) : Bool := (32 ≤ b && b < 127) || b == 9

/-- `HeaderValue::to_str`. -/
def toStr (v : HeaderValue) : Option String :=
  if v.all isVisibleAscii then some (String.ofList (v.map fun b => Char.ofNat b.toNat)) else none

end HeaderValue

/-- The characters of a header name (`tchar`). -/
def isTokenChar (ch : Char) : Bool := ch.isAlphanum || "!#$%&'*+-.^_`|~".toList.contains ch

/-- `HeaderName::from_bytes`: the name in lower case, if it is one. -/
def headerName (name : String) : Option String :=
  if name ≠ "" ∧ name.toList.length ≤ 65535 ∧ name.toList.all isTokenChar then some (Text.toAsciiLowercase name)
  else none

/-- The value a text is sent as. -/
def headerValue (s : String) : HeaderValue := Text.utf8 s

/-- `HeaderValue::from_bytes`: the bytes, if a header line may carry them. -/
def headerValueFromBytes (bytes : List UInt8) : Option HeaderValue :=
  if bytes.all fun b => (32 ≤ b && b != 127) || b == 9 then some bytes else none

/-- `HeaderValue::from_str`, which checks the bytes of the text as `from_bytes` does. -/
def headerValueFromStr (s : String) : Option HeaderValue := headerValueFromBytes (headerValue s)

/-- The bytes of a value, each as the character of that code. -/
def HeaderValue.chars (v : HeaderValue) : List Char := v.map fun b => Char.ofNat b.toNat

/-- ASCII text is read back from the value it is sent as. -/
theorem chars_headerValue {s : String} (h : ∀ ch ∈ s.toList, ch.toNat < 128) : HeaderValue.chars (headerValue s) = s.toList := by
  have hutf8 : headerValue s = s.toList.map fun ch => UInt8.ofNat ch.toNat := by
    rw [headerValue, Text.utf8, List.map_eq_flatMap]
    exact List.flatMap_congr fun ch hch => Text.utf8EncodeChar_ascii (h ch hch)
  rw [HeaderValue.chars, hutf8, List.map_map]
  conv_rhs => rw [← List.map_id s.toList]
  refine List.map_congr_left fun ch hch => ?_
  have hcode := h ch hch
  have hbyte : (UInt8.ofNat ch.toNat).toNat = ch.toNat := by
    rw [UInt8.toNat_ofNat']
    omega
  rw [Function.comp, hbyte, Char.ofNat_toNat, id]

/-- A value is determined by its characters. -/
theorem HeaderValue.chars_injective {v w : HeaderValue} (h : v.chars = w.chars) : v = w := by
  refine List.map_injective_iff.mpr ?_ h
  intro a b hab
  have hcode := congrArg Char.toNat hab
  have ha := a.toNat_lt
  have hb := b.toNat_lt
  rw [Text.toNat_ofNat (by omega), Text.toNat_ofNat (by omega)] at hcode
  exact UInt8.toNat_inj.mp hcode

/-- The characters of a value that is text. -/
theorem chars_of_toStr {v : HeaderValue} {s : String} (h : v.toStr = some s) : s.toList = v.chars := by
  rw [HeaderValue.toStr] at h
  split_ifs at h
  rw [← Option.some.inj h, String.toList_ofList]
  rfl

/-- They are visible, or tabs. -/
theorem visible_of_toStr {v : HeaderValue} {s : String} (h : v.toStr = some s) :
    ∀ ch ∈ v.chars, (32 ≤ ch.toNat ∧ ch.toNat < 127) ∨ ch.toNat = 9 := by
  rw [HeaderValue.toStr] at h
  split_ifs at h with hvisible
  intro ch hch
  obtain ⟨b, hb, rfl⟩ := List.mem_map.1 hch
  have hlt := b.toNat_lt
  have hbyte := List.all_eq_true.1 hvisible b hb
  simp only [HeaderValue.isVisibleAscii, Bool.or_eq_true, Bool.and_eq_true, decide_eq_true_eq, beq_iff_eq,
    UInt8.le_iff_toNat_le, UInt8.lt_iff_toNat_lt] at hbyte
  rw [Text.toNat_ofNat (by omega)]
  exact hbyte.imp_right fun htab => congrArg UInt8.toNat htab

/-- A value is text if its characters are visible, or tabs. -/
theorem toStr_eq_some {v : HeaderValue} (h : ∀ ch ∈ v.chars, (32 ≤ ch.toNat ∧ ch.toNat < 127) ∨ ch.toNat = 9) :
    v.toStr = some (String.ofList v.chars) := by
  have hvisible : v.all HeaderValue.isVisibleAscii := by
    rw [List.all_eq_true]
    intro b hb
    have hlt := b.toNat_lt
    have hcode := h _ (List.mem_map_of_mem hb)
    rw [Text.toNat_ofNat (by omega)] at hcode
    simp only [HeaderValue.isVisibleAscii, Bool.or_eq_true, Bool.and_eq_true, decide_eq_true_eq, beq_iff_eq,
      UInt8.le_iff_toNat_le, UInt8.lt_iff_toNat_lt]
    refine hcode.imp_right fun htab => ?_
    exact UInt8.toNat_inj.1 htab
  rw [HeaderValue.toStr, if_pos hvisible]
  rfl

/-- Visible text is read back from the value it is sent as. -/
theorem toStr_headerValue {s : String} (h : ∀ ch ∈ s.toList, 32 ≤ ch.toNat ∧ ch.toNat < 127) :
    HeaderValue.toStr (headerValue s) = some s := by
  have hchars : (headerValue s).chars = s.toList := chars_headerValue fun ch hch => by
    have hcode := h ch hch
    omega
  rw [toStr_eq_some (hchars ▸ fun ch hch => .inl (h ch hch)), hchars, String.ofList_toList]

/-- Only the bytes given come back. -/
theorem headerValueFromBytes_eq_some {bytes : List UInt8} {v : HeaderValue}
    (h : headerValueFromBytes bytes = some v) : v = bytes := by
  rw [headerValueFromBytes] at h
  split_ifs at h
  exact (Option.some.inj h).symm

/-- A header line may carry what reads as text. -/
theorem headerValueFromBytes_of_toStr {v : HeaderValue} {s : String} (h : v.toStr = some s) :
    headerValueFromBytes v = some v := by
  rw [HeaderValue.toStr] at h
  split_ifs at h with hvisible
  rw [headerValueFromBytes, if_pos]
  rw [List.all_eq_true] at hvisible ⊢
  intro b hb
  have hb := hvisible b hb
  simp only [HeaderValue.isVisibleAscii, Bool.or_eq_true, Bool.and_eq_true, decide_eq_true_eq, bne_iff_ne,
    beq_iff_eq] at hb ⊢
  refine hb.imp_left fun hb => ⟨hb.1, ?_⟩
  rintro rfl
  exact absurd hb.2 (by decide)

/-- Visible text is a header value. -/
theorem headerValueFromStr_eq {s : String} (h : ∀ ch ∈ s.toList, 32 ≤ ch.toNat ∧ ch.toNat < 127) :
    headerValueFromStr s = some (headerValue s) :=
  headerValueFromBytes_of_toStr (toStr_headerValue h)

/-- So is text beyond ASCII, which no one can read back, but nothing with a control character. -/
example : headerValueFromStr "é" = some [195, 169] ∧ HeaderValue.toStr [195, 169] = none ∧
    headerValueFromStr "a\nb" = none := by decide

/-- The headers of a message, by lowercase name. -/
abbrev HeaderMap := List (String × HeaderValue)

namespace HeaderMap

/-- Every value of a name, in order. -/
def getAll (h : HeaderMap) (name : String) : List HeaderValue :=
  (h.filter fun p => p.1 = name).map Prod.snd

/-- The first value of a name. -/
def get (h : HeaderMap) (name : String) : Option HeaderValue := (h.find? fun p => p.1 = name).map Prod.snd

/-- The first value of a name, as text. -/
def getStr (h : HeaderMap) (name : String) : Option String := (h.get name).bind HeaderValue.toStr

/-- The map without a name. -/
def remove (h : HeaderMap) (name : String) : HeaderMap := h.filter fun p => p.1 ≠ name

/-- `insert`: the value becomes the only one of its name. -/
def insert (h : HeaderMap) (name : String) (v : HeaderValue) : HeaderMap := h.remove name ++ [(name, v)]

/-- `append`: one more value of its name. -/
def append (h : HeaderMap) (name : String) (v : HeaderValue) : HeaderMap := h ++ [(name, v)]

theorem getAll_insert (h : HeaderMap) (name other : String) (v : HeaderValue) :
    (h.insert other v).getAll name = if name = other then [v] else h.getAll name := by
  by_cases hname : name = other
  · subst hname
    simp [getAll, insert, remove]
  · have hfilter : (h.remove other).filter (fun p => p.1 = name) = h.filter fun p => p.1 = name := by
      rw [remove, List.filter_filter]
      refine List.filter_congr fun p _ => ?_
      by_cases hp : p.1 = name
      · simp [hp, hname]
      · simp [hp]
    simp [getAll, insert, hfilter, hname, Ne.symm hname]

theorem getAll_remove (h : HeaderMap) (name other : String) :
    (h.remove other).getAll name = if name = other then [] else h.getAll name := by
  simp only [getAll, remove, List.filter_filter]
  split_ifs with hname
  · have hnone : (h.filter fun p => decide (p.1 = name) && decide (p.1 ≠ other)) = [] := by
      rw [List.filter_eq_nil_iff]
      simp [hname]
    rw [hnone]
    rfl
  · refine congrArg _ (List.filter_congr fun p _ => ?_)
    by_cases hp : p.1 = name
    · simp [hp, hname]
    · simp [hp]

theorem getAll_foldl_remove (names : List String) (h : HeaderMap) (name : String) :
    (names.foldl remove h).getAll name = if name ∈ names then [] else h.getAll name := by
  induction names generalizing h with
  | nil => simp
  | cons n names ih =>
    rw [List.foldl_cons, ih, getAll_remove]
    by_cases hmem : name ∈ names
    · simp [hmem]
    · simp [hmem]

/-- Of several values inserted under one name, the last one stays. -/
theorem getAll_foldl_insert (l : HeaderMap) (h : HeaderMap) (name : String) :
    (l.foldl (fun h p => h.insert p.1 p.2) h).getAll name =
      match (getAll l name).getLast? with
      | some v => [v]
      | none => h.getAll name := by
  induction l generalizing h with
  | nil => rfl
  | cons p l ih =>
    rw [List.foldl_cons, ih, getAll_insert]
    by_cases hp : name = p.1
    · have hcons : getAll (p :: l) name = p.2 :: getAll l name := by simp [getAll, hp]
      rw [hcons, if_pos hp, List.getLast?_cons]
      cases (getAll l name).getLast? with
      | none => rfl
      | some v => rfl
    · have hcons : getAll (p :: l) name = getAll l name := by simp [getAll, Ne.symm hp]
      rw [hcons, if_neg hp]

theorem get_eq_head?_getAll (h : HeaderMap) (name : String) : h.get name = (h.getAll name).head? := by
  rw [get, getAll, List.head?_map, List.head?_filter]

/-! What the changes of one name leave of another. -/

section Get

variable {h : HeaderMap} {name other : String} {v : HeaderValue}

@[simp]
theorem get_remove_self : (h.remove name).get name = none := by
  simp [get, remove]

theorem get_remove_of_ne (hne : name ≠ other) : (h.remove other).get name = h.get name := by
  induction h with
  | nil => rfl
  | cons p h ih =>
    by_cases hp : p.1 = other
    · have hname : p.1 ≠ name := fun heq => hne (heq.symm.trans hp)
      simpa [get, remove, hp, List.find?_cons, hname, hne.symm] using ih
    · by_cases hname : p.1 = name
      · simp [get, remove, hname, hne]
      · simpa [get, remove, hp, List.find?_cons, hname] using ih

theorem get_insert_of_ne (hne : name ≠ other) : (h.insert other v).get name = h.get name := by
  rw [← get_remove_of_ne (h := h) hne]
  simp [insert, get, List.find?_append, hne.symm]

/-- A name that is not among those removed keeps its value, and one that is loses it. -/
theorem get_foldl_remove (names : List String) :
    (names.foldl remove h).get name = if name ∈ names then none else h.get name := by
  induction names generalizing h with
  | nil => simp
  | cons n names ih =>
    rw [List.foldl_cons, ih]
    by_cases hmem : name ∈ names
    · simp [hmem]
    · by_cases hn : name = n
      · subst hn
        simp [hmem]
      · simp [hmem, hn, get_remove_of_ne hn]

end Get

end HeaderMap

end G2way.Core
