import G2way.Lib.Base64
import G2way.Lib.Result
import G2way.Middleware.Hmac

/-!
# The grammar of a signature header

`parse_signature_header` of `g2-middleware/src/hmac.rs` documents its grammar: "a
case-insensitive `Signature ` scheme followed by comma-separated `name="value"`
pairs (optional whitespace around commas). `keyId`, `algorithm`, and `signature`
are required; `headers` is optional …; unknown parameters are ignored … and
duplicates are malformed."

## The model

The documented grammar is `PairList`: names (`IsName`), each followed by `=` and a quoted
value, one comma between two pairs, and whitespace beside the commas only. `Complete` is
what the parameters have to be, one by one, and what is returned of them; escapes are
undone by `Unescapes`, two hexadecimal digits each. Base64 is the standard alphabet with
padding, as the engine the code names reads it.

`Pairs text raws trailing` is how the code reads a text: a name is everything that stands
before the `=`, trimmed only afterwards (`trimmed`), and a comma may follow the last pair.

## What is proved

* `parseParams_eq_some` — the loop returns on every text, in as many turns as the text
  has characters, and what it returns are the pairs of the text put into their slots.
* `parse_eq_some_iff` — the header is accepted exactly if its text reads as pairs,
  strictly or not, and the parameters are complete. The sign that `from_str_radix`
  takes in an escape makes no difference: it stands for a control character, which no
  base64 has.
* `pairList_iff` — a text is in the grammar if it reads as pairs without a last comma,
  and its names, as they stand in it, are names (`Names`).
* `meets_grammar_iff` — so the code and its grammar differ on the complete headers with
  a comma after their last pair, or with a name that is none, and on no others.
-/

namespace G2way.Middleware.Hmac

open G2way.Core G2way.Lib

/-! ### The grammar -/

/-- Whitespace only. -/
def Blank (l : List Char) : Prop := ∀ c ∈ l, Text.isWhitespace c = true

/-- A name: not empty, and without whitespace and the characters that end a name, a pair or a value. -/
def IsName (name : String) : Prop :=
  name ≠ "" ∧ ∀ c ∈ name.toList, Text.isWhitespace c = false ∧ c ≠ '=' ∧ c ≠ ',' ∧ c ≠ '"'

/-- A comma-separated list of pairs `name="value"`, with whitespace around the commas. -/
inductive PairList : List Char → List (String × String) → Prop where
  /-- One pair. -/
  | one {name value : String} : IsName name → '"' ∉ value.toList →
      PairList (name.toList ++ '=' :: '"' :: (value.toList ++ ['"'])) [(name, value)]
  /-- A pair, a comma, and more pairs. -/
  | cons {name value : String} {ws ws' rest : List Char} {ps : List (String × String)} :
      IsName name → '"' ∉ value.toList → Blank ws → Blank ws' → PairList rest ps →
      PairList (name.toList ++ '=' :: '"' :: (value.toList ++ '"' :: (ws ++ ',' :: (ws' ++ rest)))) ((name, value) :: ps)

/-- A text as the code reads it: pairs whose names are all that stands before the `=`. The flag says that one
more comma follows the last pair. -/
inductive Pairs : List Char → List (String × String) → Bool → Prop where
  /-- One pair. -/
  | last {raw value : String} {ws : List Char} : '=' ∉ raw.toList → '"' ∉ value.toList → Blank ws →
      Pairs (raw.toList ++ '=' :: '"' :: (value.toList ++ '"' :: ws)) [(raw, value)] false
  /-- One pair and a comma. -/
  | comma {raw value : String} {ws ws' : List Char} : '=' ∉ raw.toList → '"' ∉ value.toList → Blank ws →
      Blank ws' →
      Pairs (raw.toList ++ '=' :: '"' :: (value.toList ++ '"' :: (ws ++ ',' :: ws'))) [(raw, value)] true
  /-- A pair, a comma, and more pairs. -/
  | cons {raw value : String} {ws rest : List Char} {raws : List (String × String)} {trailing : Bool} :
      '=' ∉ raw.toList → '"' ∉ value.toList → Blank ws → Pairs rest raws trailing →
      Pairs (raw.toList ++ '=' :: '"' :: (value.toList ++ '"' :: (ws ++ ',' :: rest))) ((raw, value) :: raws) trailing

/-- The parameters the code takes: the names are trimmed. -/
def trimmed (raws : List (String × String)) : List (String × String) := raws.map fun p => (Text.trim p.1, p.2)

/-- The values a parameter is given. -/
def valuesOf (ps : List (String × String)) (name : String) : List String :=
  (ps.filter fun p => p.1 = name).map Prod.snd

/-- Undoing the escapes: `%` and two hexadecimal digits are one byte. -/
inductive Unescapes : List UInt8 → List UInt8 → Prop where
  /-- Nothing. -/
  | nil : Unescapes [] []
  /-- A byte that is no `%`. -/
  | plain {b : UInt8} {bytes out : List UInt8} : b ≠ 37 → Unescapes bytes out → Unescapes (b :: bytes) (b :: out)
  /-- An escape. -/
  | escape {hi lo : UInt8} {h l : ℕ} {bytes out : List UInt8} : Text.hexDigit hi = some h → Text.hexDigit lo = some l →
      Unescapes bytes out → Unescapes (37 :: hi :: lo :: bytes) (UInt8.ofNat (16 * h + l) :: out)

/-- A `signature` value and the bytes it stands for. -/
def SignatureValue (value : String) (bytes : List UInt8) : Prop :=
  ∃ text, Unescapes (Text.utf8 value) (Text.utf8 text) ∧ Base64.decode text = some bytes

/-- The parameters are what is required, each known one at most once, and `params` is read from them. -/
structure Complete (ps : List (String × String)) (params : SignatureParams) : Prop where
  keyId : valuesOf ps "keyId" = [params.keyId] ∧ params.keyId ≠ ""
  algorithm : valuesOf ps "algorithm" = [params.algorithm] ∧ params.algorithm ≠ ""
  headers : (valuesOf ps "headers" = [] ∧ params.headers = ["date"]) ∨
    ∃ list, valuesOf ps "headers" = [list] ∧
      params.headers = (Text.splitWhitespace list).map Text.toAsciiLowercase ∧ params.headers ≠ []
  signature : ∃ value, valuesOf ps "signature" = [value] ∧ SignatureValue value params.signature

/-- What follows the scheme. -/
def Scheme (v : String) (text : List Char) : Prop :=
  ∃ scheme, (Text.trim v).toList = scheme ++ text ∧ scheme.map Char.toLower = "signature ".toList

/-- The documented grammar. -/
def Documented (v : String) (params : SignatureParams) : Prop :=
  ∃ text ps, Scheme v text ∧ PairList text ps ∧ Complete ps params

/-! ### The loop -/

section Loop

variable {n : ℕ} {text rest name value : String} {slots out : Slots} {ps raws : List (String × String)}
  {trailing : Bool}

/-- The parameters into their slots, in order. -/
def putAll (slots : Slots) (ps : List (String × String)) : Option Slots :=
  ps.foldlM (fun slots p => slots.put p.1 p.2) slots

theorem putAll_cons {p : String × String} :
    putAll slots (p :: ps) = some out ↔ ∃ slots', slots.put p.1 p.2 = some slots' ∧ putAll slots' ps = some out := by
  rw [putAll, List.foldlM_cons, Option.bind_eq_bind, Option.bind_eq_some_iff]
  rfl

theorem putAll_nil : putAll slots [] = some out ↔ slots = out := by
  rw [putAll, List.foldlM_nil, Option.pure_def, Option.some.injEq]

theorem trimStart_eq_empty : Text.trimStart text = "" ↔ Blank text.toList := by
  rw [Text.trimStart, ← String.toList_inj, String.toList_ofList]
  exact List.dropWhile_eq_nil_iff

theorem not_blank_of_mem {l : List Char} {c : Char} (hc : c ∈ l) (hw : Text.isWhitespace c = false) : ¬ Blank l := by
  intro hblank
  rw [hblank c hc] at hw
  cases hw

theorem Pairs.not_blank {l : List Char} (h : Pairs l raws trailing) : ¬ Blank l := by
  cases h with
  | last => exact not_blank_of_mem (c := '=') (by simp) (by decide)
  | comma => exact not_blank_of_mem (c := '=') (by simp) (by decide)
  | cons => exact not_blank_of_mem (c := '=') (by simp) (by decide)

/-- The name of a pair, which is read off the trimmed text. -/
theorem splitOnce_trimStart {after : String} :
    (∃ name', Text.splitOnce '=' (Text.trimStart text) = some (name', after) ∧ Text.trim name' = name) ↔
      ∃ raw : String, '=' ∉ raw.toList ∧ text.toList = raw.toList ++ '=' :: after.toList ∧ Text.trim raw = name := by
  have heq : Text.isWhitespace '=' = false := by decide
  constructor
  · rintro ⟨name', hsplit, hname⟩
    obtain ⟨hnot, htext⟩ := Text.splitOnce_eq_some.1 hsplit
    rw [Text.trimStart, String.toList_ofList] at htext
    refine ⟨String.ofList (text.toList.takeWhile Text.isWhitespace ++ name'.toList), ?_, ?_, ?_⟩
    · rw [String.toList_ofList, List.mem_append]
      rintro (hmem | hmem)
      · exact absurd (List.mem_takeWhile_imp hmem) (by simp [heq])
      · exact hnot hmem
    · rw [String.toList_ofList, List.append_assoc, ← htext, List.takeWhile_append_dropWhile]
    · have hstart : Text.trimStart (String.ofList (text.toList.takeWhile Text.isWhitespace ++ name'.toList)) =
          Text.trimStart name' := by
        rw [Text.trimStart, Text.trimStart, String.toList_ofList,
          List.dropWhile_append_of_pos fun c hc => List.mem_takeWhile_imp hc]
      rw [← Text.trim_trimStart, hstart, Text.trim_trimStart, hname]
  · rintro ⟨raw, hnot, htext, hname⟩
    refine ⟨Text.trimStart raw, Text.splitOnce_eq_some.2 ⟨?_, ?_⟩, ?_⟩
    · rw [Text.trimStart, String.toList_ofList]
      exact fun hmem => hnot ((List.dropWhile_sublist _).mem hmem)
    · rw [Text.trimStart, Text.trimStart, String.toList_ofList, String.toList_ofList, htext,
        Text.dropWhile_append_cons heq]
    · rw [Text.trim_trimStart, hname]

/-- The comma after a pair. -/
theorem stripPrefix_trimStart {after : String} :
    Text.stripPrefix "," (Text.trimStart text) = some after ↔ ∃ ws, Blank ws ∧ text.toList = ws ++ ',' :: after.toList := by
  rw [Text.stripPrefix_eq_some, Text.trimStart, String.toList_ofList]
  constructor
  · intro h
    refine ⟨text.toList.takeWhile Text.isWhitespace, fun c hc => List.mem_takeWhile_imp hc, ?_⟩
    have hcons : text.toList.dropWhile Text.isWhitespace = ',' :: after.toList := h
    rw [← hcons, List.takeWhile_append_dropWhile]
  · rintro ⟨ws, hws, htext⟩
    rw [htext, Text.dropWhile_append_cons (by decide), List.dropWhile_eq_nil_iff.2 hws]
    rfl

theorem parseParams_empty : parseParams n "" slots = some slots := by
  cases n with
  | zero => rfl
  | succ n => rfl

/-- How the loop goes on after a pair: with the text after a comma, or with nothing. -/
theorem goOn_eq_some {r : String} {k : String → Option Slots} :
    (match Text.stripPrefix "," (Text.trimStart r) with
      | some r => (some (Text.trimStart r)).bind k
      | none => if Text.trimStart r = "" then (some (Text.trimStart r)).bind k else none.bind k) = some out ↔
    (∃ ws, ∃ r' : String, Blank ws ∧ r.toList = ws ++ ',' :: r'.toList ∧ k (Text.trimStart r') = some out) ∨
      (Blank r.toList ∧ k "" = some out) := by
  cases hstrip : Text.stripPrefix "," (Text.trimStart r) with
  | some r' =>
    obtain ⟨ws, hws, hr⟩ := stripPrefix_trimStart.1 hstrip
    constructor
    · intro h
      exact .inl ⟨ws, r', hws, hr, h⟩
    · rintro (⟨ws', r'', hws', hr', hk⟩ | ⟨hblank, -⟩)
      · have hagain := stripPrefix_trimStart.2 ⟨ws', hws', hr'⟩
        rw [hstrip] at hagain
        rw [Option.some.inj hagain]
        exact hk
      · exact absurd hblank (not_blank_of_mem (c := ',') (by simp [hr]) (by decide))
  | none =>
    constructor
    · intro h
      simp only [Option.bind_some, Option.bind_none] at h
      split_ifs at h with hempty
      rw [hempty] at h
      exact .inr ⟨trimStart_eq_empty.1 hempty, h⟩
    · rintro (⟨ws, r', hws, hr, -⟩ | ⟨hblank, hk⟩)
      · rw [stripPrefix_trimStart.2 ⟨ws, hws, hr⟩] at hstrip
        cases hstrip
      · simp [trimStart_eq_empty.2 hblank, hk]

/-- One turn takes a pair off the text, and the comma after it. -/
theorem parseParams_turn (h : ¬ Blank text.toList) :
    parseParams (n + 1) (Text.trimStart text) slots = some out ↔
      ∃ raw value r : String, '=' ∉ raw.toList ∧ '"' ∉ value.toList ∧
        text.toList = raw.toList ++ '=' :: '"' :: (value.toList ++ '"' :: r.toList) ∧
        ∃ slots', slots.put (Text.trim raw) value = some slots' ∧
          ((∃ ws, ∃ r' : String, Blank ws ∧ r.toList = ws ++ ',' :: r'.toList ∧
              parseParams n (Text.trimStart r') slots' = some out) ∨ (Blank r.toList ∧ slots' = out)) := by
  rw [parseParams, if_neg (mt trimStart_eq_empty.1 h)]
  simp only [Option.bind_eq_bind, Option.bind_eq_some_iff, Prod.exists]
  constructor
  · rintro ⟨name, after, hname, quoted, hquote, value, r, hvalue, hrest⟩
    obtain ⟨raw, hraw, htext, hraw'⟩ := splitOnce_trimStart.1 ⟨name, hname, rfl⟩
    obtain ⟨hnot, hvalue⟩ := Text.splitOnce_eq_some.1 hvalue
    rw [Text.stripPrefix_eq_some.1 hquote, hvalue] at htext
    refine ⟨raw, value, r, hraw, hnot, htext, ?_⟩
    rw [hraw']
    obtain ⟨ws, r', hws, hr, hk⟩ | ⟨hblank, hk⟩ :=
      (goOn_eq_some (k := fun rest => (slots.put (Text.trim name) value).bind (parseParams n rest))).1 hrest
    · obtain ⟨slots', hput, hloop⟩ := Option.bind_eq_some_iff.1 hk
      exact ⟨slots', hput, .inl ⟨ws, r', hws, hr, hloop⟩⟩
    · obtain ⟨slots', hput, hloop⟩ := Option.bind_eq_some_iff.1 hk
      rw [parseParams_empty] at hloop
      exact ⟨slots', hput, .inr ⟨hblank, Option.some.inj hloop⟩⟩
  · rintro ⟨raw, value, r, hraw, hnot, htext, slots', hput, hrest⟩
    obtain ⟨name, hname, hraw'⟩ := splitOnce_trimStart.2
      ⟨raw, hraw, htext.trans (by rw [String.toList_ofList]), rfl⟩
    refine ⟨name, _, hname, String.ofList (value.toList ++ '"' :: r.toList), ?_, value, r, ?_, ?_⟩
    · rw [Text.stripPrefix_eq_some, String.toList_ofList, String.toList_ofList]
      simp
    · rw [Text.splitOnce_eq_some, String.toList_ofList]
      exact ⟨hnot, rfl⟩
    · rw [hraw']
      refine (goOn_eq_some (k := fun rest => (slots.put (Text.trim raw) value).bind (parseParams n rest))).2 ?_
      obtain ⟨ws, r', hws, hr, hloop⟩ | ⟨hblank, rfl⟩ := hrest
      · exact .inl ⟨ws, r', hws, hr, Option.bind_eq_some_iff.2 ⟨slots', hput, hloop⟩⟩
      · exact .inr ⟨hblank, Option.bind_eq_some_iff.2 ⟨slots', hput, parseParams_empty⟩⟩

/-- A turn makes the text shorter. -/
theorem length_le_of_turn {raw value ws : List Char} {r : String}
    (htext : text.toList = raw ++ '=' :: '"' :: (value ++ '"' :: (ws ++ ',' :: r.toList)))
    (hn : (Text.trimStart text).toList.length ≤ n + 1) : (Text.trimStart r).toList.length ≤ n := by
  have hle := (List.dropWhile_sublist (l := r.toList) Text.isWhitespace).length_le
  rw [Text.trimStart, String.toList_ofList, htext, Text.dropWhile_append_cons (by decide)] at hn
  rw [Text.trimStart, String.toList_ofList]
  simp only [List.length_append, List.length_cons] at hn
  omega

/-- The loop returns, whatever the text, once it may take as many turns as the text has characters; what it
returns are the pairs of the text in their slots. -/
theorem parseParams_eq_some (hn : (Text.trimStart text).toList.length ≤ n) :
    parseParams n (Text.trimStart text) slots = some out ↔
      (Blank text.toList ∧ slots = out) ∨
        ∃ raws trailing, Pairs text.toList raws trailing ∧ putAll slots (trimmed raws) = some out := by
  induction n generalizing text slots with
  | zero =>
    have hempty : Text.trimStart text = "" := String.toList_inj.1 (List.length_eq_zero_iff.1 (Nat.le_zero.1 hn))
    have hblank := trimStart_eq_empty.1 hempty
    rw [hempty, parseParams_empty, Option.some.injEq]
    refine ⟨fun h => .inl ⟨hblank, h⟩, ?_⟩
    rintro (⟨-, h⟩ | ⟨raws, trailing, hpairs, -⟩)
    · exact h
    · exact absurd hblank hpairs.not_blank
  | succ n ih =>
    by_cases hblank : Blank text.toList
    · rw [trimStart_eq_empty.2 hblank, parseParams_empty, Option.some.injEq]
      refine ⟨fun h => .inl ⟨hblank, h⟩, ?_⟩
      rintro (⟨-, h⟩ | ⟨raws, trailing, hpairs, -⟩)
      · exact h
      · exact absurd hblank hpairs.not_blank
    · rw [parseParams_turn hblank]
      constructor
      · rintro ⟨raw, value, r, hraw, hvalue, htext, slots', hput, ⟨ws, r', hws, hr, hloop⟩ | ⟨hend, rfl⟩⟩
        · rw [hr] at htext
          have hshort : (Text.trimStart r').toList.length ≤ n := length_le_of_turn htext hn
          rw [htext]
          obtain ⟨hend, rfl⟩ | ⟨raws, trailing, hpairs, hall⟩ := (ih hshort).1 hloop
          · exact .inr ⟨_, true, .comma hraw hvalue hws hend, putAll_cons.2 ⟨_, hput, putAll_nil.2 rfl⟩⟩
          · exact .inr ⟨_, trailing, .cons hraw hvalue hws hpairs, putAll_cons.2 ⟨_, hput, hall⟩⟩
        · rw [htext]
          exact .inr ⟨_, false, .last hraw hvalue hend, putAll_cons.2 ⟨_, hput, putAll_nil.2 rfl⟩⟩
      · rintro (⟨hblank', -⟩ | ⟨raws, trailing, hpairs, hall⟩)
        · exact absurd hblank' hblank
        generalize htext : text.toList = l at hpairs
        cases hpairs with
        | last hraw hvalue hws =>
          obtain ⟨slots', hput, hnil⟩ := putAll_cons.1 hall
          refine ⟨_, _, String.ofList _, hraw, hvalue, by rw [String.toList_ofList], slots', hput, .inr ⟨?_, ?_⟩⟩
          · rwa [String.toList_ofList]
          · exact putAll_nil.1 hnil
        | @comma raw value ws ws' hraw hvalue hws hws' =>
          obtain ⟨slots', hput, hnil⟩ := putAll_cons.1 hall
          refine ⟨_, _, String.ofList _, hraw, hvalue, by rw [String.toList_ofList], slots', hput, .inl ?_⟩
          refine ⟨ws, String.ofList ws', hws, by rw [String.toList_ofList, String.toList_ofList], ?_⟩
          rw [trimStart_eq_empty.2 (by rwa [String.toList_ofList]), parseParams_empty, putAll_nil.1 hnil]
        | @cons raw value ws rest raws _ hraw hvalue hws hpairs =>
          obtain ⟨slots', hput, hall⟩ := putAll_cons.1 hall
          refine ⟨_, _, String.ofList _, hraw, hvalue, by rw [String.toList_ofList], slots', hput, .inl ?_⟩
          refine ⟨ws, String.ofList rest, hws, by rw [String.toList_ofList, String.toList_ofList], ?_⟩
          have hshort : (Text.trimStart (String.ofList rest)).toList.length ≤ n :=
            length_le_of_turn (by rw [htext, String.toList_ofList]) hn
          exact (ih hshort).2 (.inr ⟨raws, trailing, by rwa [String.toList_ofList], hall⟩)

end Loop

/-! ### The slots -/

/-- The slots hold what they held and the values the pairs give them, one value each. -/
structure Fills (s : Slots) (ps : List (String × String)) (out : Slots) : Prop where
  keyId : s.keyId.toList ++ valuesOf ps "keyId" = out.keyId.toList
  algorithm : s.algorithm.toList ++ valuesOf ps "algorithm" = out.algorithm.toList
  headers : s.headers.toList ++ valuesOf ps "headers" = out.headers.toList
  signature : s.signature.toList ++ valuesOf ps "signature" = out.signature.toList

theorem fills_iff {s out : Slots} {ps : List (String × String)} :
    Fills s ps out ↔ s.keyId.toList ++ valuesOf ps "keyId" = out.keyId.toList ∧
      s.algorithm.toList ++ valuesOf ps "algorithm" = out.algorithm.toList ∧
      s.headers.toList ++ valuesOf ps "headers" = out.headers.toList ∧
      s.signature.toList ++ valuesOf ps "signature" = out.signature.toList :=
  ⟨fun ⟨hk, ha, hh, hg⟩ => ⟨hk, ha, hh, hg⟩, fun ⟨hk, ha, hh, hg⟩ => ⟨hk, ha, hh, hg⟩⟩

theorem valuesOf_nil (name : String) : valuesOf [] name = [] := rfl

theorem valuesOf_cons (p : String × String) (ps : List (String × String)) (name : String) :
    valuesOf (p :: ps) name = (if p.1 = name then [p.2] else []) ++ valuesOf ps name := by
  by_cases h : p.1 = name
  · simp [valuesOf, h]
  · simp [valuesOf, h]

theorem toList_inj {o o' : Option String} : o.toList = o'.toList ↔ o = o' := by
  cases o <;> cases o' <;> simp

theorem toList_eq_singleton {o : Option String} {v : String} : o.toList = [v] ↔ o = some v := by
  cases o <;> simp

theorem singleton_eq_toList {o : Option String} {v : String} : [v] = o.toList ↔ some v = o := by
  cases o <;> simp

theorem pair_ne_toList {o : Option String} {v v' : String} : ¬ [v, v'] = o.toList := by
  cases o <;> simp

/-- One parameter is put into its slot, if that is free. -/
theorem put_eq_some {s out : Slots} {name value : String} :
    s.put name value = some out ↔ Fills s [(name, value)] out := by
  rw [fills_iff]
  simp only [valuesOf_cons, valuesOf_nil, List.append_nil]
  unfold Slots.put
  obtain ⟨k, a, h, g⟩ := s
  obtain ⟨k', a', h', g'⟩ := out
  split
  · cases k <;> simp [toList_inj, singleton_eq_toList, pair_ne_toList]
  · cases a <;> simp [toList_inj, singleton_eq_toList, pair_ne_toList]
  · cases h <;> simp [toList_inj, singleton_eq_toList, pair_ne_toList]
  · cases g <;> simp [toList_inj, singleton_eq_toList, pair_ne_toList]
  · next hk ha hh hg =>
    simp [toList_inj, show name ≠ "keyId" from hk, show name ≠ "algorithm" from ha, show name ≠ "headers" from hh,
      show name ≠ "signature" from hg]

/-- Filling slots goes parameter by parameter. -/
theorem fills_cons {s out : Slots} {p : String × String} {ps : List (String × String)} :
    Fills s (p :: ps) out ↔ ∃ s', Fills s [p] s' ∧ Fills s' ps out := by
  -- a slot that holds one value at the end holds at most one after the first parameter
  have hslot {o o' : Option String} {l l' : List String} (h : o.toList ++ (l ++ l') = o'.toList) :
      ∃ o'' : Option String, o''.toList = o.toList ++ l := by
    have hlen : (o.toList ++ l).length ≤ 1 := by
      have hall := congrArg List.length h
      have hout : o'.toList.length ≤ 1 := by cases o' <;> simp
      simp only [List.length_append] at hall ⊢
      omega
    match hl : o.toList ++ l with
    | [] => exact ⟨none, rfl⟩
    | [a] => exact ⟨some a, rfl⟩
    | a :: b :: rest => simp [hl] at hlen
  simp only [fills_iff, valuesOf_cons p ps, valuesOf_cons p [], valuesOf_nil, List.append_nil]
  constructor
  · rintro ⟨hk, ha, hh, hg⟩
    obtain ⟨k, hk'⟩ := hslot hk
    obtain ⟨a, ha'⟩ := hslot ha
    obtain ⟨h, hh'⟩ := hslot hh
    obtain ⟨g, hg'⟩ := hslot hg
    refine ⟨⟨k, a, h, g⟩, ⟨hk'.symm, ha'.symm, hh'.symm, hg'.symm⟩, ?_⟩
    rw [hk', ha', hh', hg']
    simp only [List.append_assoc]
    exact ⟨hk, ha, hh, hg⟩
  · rintro ⟨s', ⟨hk, ha, hh, hg⟩, hk', ha', hh', hg'⟩
    rw [← hk', ← ha', ← hh', ← hg', ← hk, ← ha, ← hh, ← hg]
    simp only [List.append_assoc, and_self]

theorem putAll_eq_some {s out : Slots} {ps : List (String × String)} : putAll s ps = some out ↔ Fills s ps out := by
  induction ps generalizing s with
  | nil =>
    rw [putAll_nil, fills_iff]
    obtain ⟨k, a, h, g⟩ := s
    obtain ⟨k', a', h', g'⟩ := out
    simp [valuesOf_nil, toList_inj]
  | cons p ps ih =>
    rw [putAll_cons, fills_cons]
    exact exists_congr fun s' => and_congr put_eq_some ih

/-! ### The signature -/

theorem unescapes_of_not_mem {bytes : List UInt8} (h : (37 : UInt8) ∉ bytes) : Unescapes bytes bytes := by
  induction bytes with
  | nil => exact .nil
  | cons b bytes ih =>
    exact .plain (Ne.symm (List.ne_of_not_mem_cons h)) (ih (List.not_mem_of_not_mem_cons h))

theorem hexDigit_lt {b : UInt8} {n : ℕ} (h : Text.hexDigit b = some n) : n < 16 := by
  unfold Text.hexDigit at h
  simp only [UInt8.le_iff_toNat_le, UInt8.toNat_ofNat] at h
  split_ifs at h with hdigit hlower hupper
  · rw [← Option.some.inj h]
    omega
  · rw [← Option.some.inj h]
    omega
  · rw [← Option.some.inj h]
    omega

/-- The sign that `from_str_radix` takes stands for the digit zero. -/
theorem fromStrRadix16_eq_some {hi lo c : UInt8} (h : fromStrRadix16 hi lo = some c) :
    c.toNat < 16 ∨ ∃ x y, Text.hexDigit hi = some x ∧ Text.hexDigit lo = some y ∧ UInt8.ofNat (16 * x + y) = c := by
  simp only [fromStrRadix16, Option.bind_eq_bind, Option.bind_eq_some_iff] at h
  obtain ⟨y, hy, h⟩ := h
  split_ifs at h with hplus
  · have hlt := hexDigit_lt hy
    rw [← Option.some.inj h, UInt8.toNat_ofNat']
    omega
  · obtain ⟨x, hx, hc⟩ := Option.bind_eq_some_iff.1 h
    exact .inr ⟨x, y, hx, hy, Option.some.inj hc⟩

theorem fromStrRadix16_of_digits {hi lo : UInt8} {x y : ℕ} (hx : Text.hexDigit hi = some x)
    (hy : Text.hexDigit lo = some y) : fromStrRadix16 hi lo = some (UInt8.ofNat (16 * x + y)) := by
  have hplus : hi ≠ 43 := by
    rintro rfl
    cases hx
  simp [fromStrRadix16, hx, hy, hplus]

theorem percentDecodeBytes_plain {b : UInt8} (hb : b ≠ 37) (rest : List UInt8) :
    percentDecodeBytes (b :: rest) = (percentDecodeBytes rest).map (b :: ·) := by
  have hdo (o : Option (List UInt8)) : (do return b :: (← o)) = o.map (b :: ·) := by
    cases o <;> rfl
  rw [percentDecodeBytes.eq_def]
  simp only [hb, if_false]
  exact hdo _

/-- Where no control character comes out, escapes have been undone. -/
theorem unescapes_of_percentDecodeBytes {bytes out : List UInt8} (h : percentDecodeBytes bytes = some out)
    (hout : ∀ b ∈ out, 16 ≤ b.toNat) : Unescapes bytes out := by
  induction bytes using percentDecodeBytes.induct generalizing out with
  | case1 =>
    obtain rfl := Option.some.inj h
    exact .nil
  | case2 hi lo rest ih =>
    simp only [percentDecodeBytes, if_true, Option.bind_eq_bind, Option.bind_eq_some_iff, Option.pure_def,
      Option.some.injEq] at h
    obtain ⟨c, hc, out', hrest, rfl⟩ := h
    obtain ⟨hlow, hout'⟩ := List.forall_mem_cons.1 hout
    obtain hctl | ⟨x, y, hx, hy, rfl⟩ := fromStrRadix16_eq_some hc
    · omega
    · exact .escape hx hy (ih hrest hout')
  | case3 rest hrest =>
    match rest with
    | [] => cases h
    | [x] => cases h
    | x :: y :: rest => exact (hrest x y rest rfl).elim
  | case4 b rest hb ih =>
    rw [percentDecodeBytes_plain hb, Option.map_eq_some_iff] at h
    obtain ⟨out', hrest, rfl⟩ := h
    exact .plain hb (ih hrest (List.forall_mem_cons.1 hout).2)

theorem percentDecodeBytes_of_unescapes {bytes out : List UInt8} (h : Unescapes bytes out) :
    percentDecodeBytes bytes = some out := by
  induction h with
  | nil => rfl
  | plain hb _ ih => rw [percentDecodeBytes_plain hb, ih, Option.map_some]
  | escape hx hy _ ih => simp [percentDecodeBytes, fromStrRadix16_of_digits hx hy, ih]

/-- A value without a `%` is what decoding makes of it. -/
theorem percentDecode_of_not_mem {value : String} (h : '%' ∉ value.toList) : percentDecode value = some value := by
  have hbytes : (37 : UInt8) ∉ Text.utf8 value := by
    intro hmem
    obtain ⟨c, hc, hb⟩ := List.mem_flatMap.1 hmem
    have hcode : c.toNat = 37 := Text.toNat_of_mem_utf8EncodeChar hb (by decide)
    have hpercent : c = '%' := by rw [← Char.ofNat_toNat c, hcode]
    exact h (hpercent ▸ hc)
  rw [percentDecode, percentDecodeBytes_of_unescapes (unescapes_of_not_mem hbytes)]
  exact Text.fromUtf8_utf8 value

/-- What the code decodes is a `signature` value. -/
theorem decode_iff_signatureValue {value : String} {bytes : List UInt8} :
    (∃ text, (if '%' ∈ value.toList then percentDecode value else some value) = some text ∧
      Base64.decode text = some bytes) ↔ SignatureValue value bytes := by
  have hif : (if '%' ∈ value.toList then percentDecode value else some value) = percentDecode value := by
    split_ifs with h
    · rfl
    · exact (percentDecode_of_not_mem h).symm
  rw [hif]
  refine exists_congr fun text => and_congr_left fun hdecode => ?_
  rw [percentDecode, Option.bind_eq_bind, Option.bind_eq_some_iff]
  constructor
  · rintro ⟨out, hout, htext⟩
    rw [Text.utf8_of_fromUtf8 htext]
    refine unescapes_of_percentDecodeBytes hout fun b hb => ?_
    -- a control character is not in the alphabet
    rw [← Text.utf8_of_fromUtf8 htext] at hb
    obtain ⟨c, hc, hb⟩ := List.mem_flatMap.1 hb
    have hchar := Base64.mem_of_decodeChars hdecode c hc
    by_contra hlow
    have hcode := Text.toNat_of_mem_utf8EncodeChar hb (by omega)
    omega
  · intro h
    exact ⟨_, percentDecodeBytes_of_unescapes h, Text.fromUtf8_utf8 text⟩

/-! ### The header -/

theorem splitAtChecked_eq_some {n : ℕ} {v first rest : String} :
    Text.splitAtChecked n v = some (first, rest) ↔
      v.toList = first.toList ++ rest.toList ∧ first.toList.length = n := by
  rw [Text.splitAtChecked]
  split_ifs with h
  · rw [Option.some.injEq, Prod.mk.injEq]
    constructor
    · rintro ⟨rfl, rfl⟩
      rw [String.toList_ofList, String.toList_ofList, List.take_append_drop, List.length_take, min_eq_left h]
      exact ⟨rfl, rfl⟩
    · rintro ⟨hv, rfl⟩
      rw [hv, List.take_left, List.drop_left, String.ofList_toList, String.ofList_toList]
      exact ⟨rfl, rfl⟩
  · simp only [false_iff, not_and]
    rintro hv rfl
    rw [hv, List.length_append] at h
    omega

/-- What the scheme has to be. -/
theorem scheme_iff {v rest : String} :
    Scheme v rest.toList ↔ ∃ scheme, Text.splitAtChecked 10 (Text.trim v) = some (scheme, rest) ∧
      Text.eqIgnoreAsciiCase scheme "signature " = true := by
  constructor
  · rintro ⟨scheme, hv, hscheme⟩
    refine ⟨String.ofList scheme, splitAtChecked_eq_some.2 ⟨by rw [String.toList_ofList, hv], ?_⟩, ?_⟩
    · have hlen := congrArg List.length hscheme
      rw [List.length_map] at hlen
      rw [String.toList_ofList, hlen]
      decide
    · rw [Text.eqIgnoreAsciiCase, String.toList_ofList, hscheme]
      decide
  · rintro ⟨scheme, hsplit, hscheme⟩
    refine ⟨scheme.toList, (splitAtChecked_eq_some.1 hsplit).1, ?_⟩
    rw [Text.eqIgnoreAsciiCase, beq_iff_eq] at hscheme
    rw [hscheme]
    decide

/-- The signed names of a `headers` parameter, or the default. -/
def headersOf : Option String → Option (List String)
  | none => some ["date"]
  | some list =>
    let names := (Text.splitWhitespace list).map Text.toAsciiLowercase
    if names = [] then none else some names

theorem headersOf_eq_some {o : Option String} {names : List String} :
    headersOf o = some names ↔ (o.toList = [] ∧ names = ["date"]) ∨
      ∃ list, o.toList = [list] ∧ names = (Text.splitWhitespace list).map Text.toAsciiLowercase ∧ names ≠ [] := by
  cases o with
  | none => simp [headersOf, eq_comm]
  | some list =>
    simp only [headersOf, Option.toList_some, List.cons_ne_nil, false_and, List.cons.injEq, and_true, false_or,
      exists_eq_left']
    split_ifs with hnil
    · simp only [false_iff, not_and, not_not]
      exact fun h => h.trans hnil
    · rw [Option.some.injEq]
      constructor
      · rintro rfl
        exact ⟨rfl, hnil⟩
      · rintro ⟨rfl, -⟩
        rfl

/-- A value that is there and not empty. -/
theorem filter_eq_some {o : Option String} {s : String} :
    o.filter (fun k => decide (k ≠ "")) = some s ↔ o.toList = [s] ∧ s ≠ "" := by
  rw [Option.filter_eq_some_iff, decide_eq_true_eq]
  cases o <;> simp

/-- The last part of the code: the signature is decoded, and the parameters are returned. -/
def finish (slots : Slots) (keyId algorithm : String) (headers : List String) : Option SignatureParams :=
  slots.signature.bind fun signature =>
    (if '%' ∈ signature.toList then percentDecode signature else some signature).bind fun signature =>
      (Base64.decode signature).bind fun signature => some { keyId, algorithm, headers, signature }

theorem finish_eq_some {slots : Slots} {keyId algorithm : String} {headers : List String} {params : SignatureParams} :
    finish slots keyId algorithm headers = some params ↔
      ∃ value, slots.signature.toList = [value] ∧ SignatureValue value params.signature ∧ params.keyId = keyId ∧
        params.algorithm = algorithm ∧ params.headers = headers := by
  simp only [finish, Option.bind_eq_some_iff, Option.some.injEq, ← decode_iff_signatureValue]
  constructor
  · rintro ⟨value, hvalue, text, htext, bytes, hbytes, rfl⟩
    exact ⟨value, by rw [hvalue]; rfl, ⟨text, htext, hbytes⟩, rfl, rfl, rfl⟩
  · rintro ⟨value, hvalue, ⟨text, htext, hbytes⟩, rfl, rfl, rfl⟩
    exact ⟨value, toList_eq_singleton.1 hvalue, text, htext, _, hbytes, rfl⟩

theorem guard_eq_some {p : Prop} [Decidable p] {u : Unit} : (guard p : Option Unit) = some u ↔ p := by
  by_cases hp : p <;> simp [guard, hp]

theorem parseSignatureHeader_eq (v : String) :
    parseSignatureHeader Base64.decode v =
      (Text.splitAtChecked 10 (Text.trim v)).bind fun split =>
        (guard (Text.eqIgnoreAsciiCase split.1 "signature ") : Option Unit).bind fun _ =>
          (parseParams (Text.trimStart split.2).length (Text.trimStart split.2) {}).bind fun slots =>
            (slots.keyId.filter (· ≠ "")).bind fun keyId =>
              (slots.algorithm.filter (· ≠ "")).bind fun algorithm =>
                (headersOf slots.headers).bind (finish slots keyId algorithm) := by
  unfold parseSignatureHeader
  simp only [Option.bind_eq_bind]
  refine Option.bind_congr fun split _ => Option.bind_congr fun _ _ => Option.bind_congr fun slots _ =>
    Option.bind_congr fun keyId _ => Option.bind_congr fun algorithm _ => ?_
  -- the rest of the code is repeated in each branch
  have hfinish (headers : List String) : (slots.signature.bind fun signature =>
      if '%' ∈ signature.toList then (percentDecode signature).bind fun signature =>
        (Base64.decode signature).bind fun signature => pure { keyId, algorithm, headers, signature }
      else (some signature).bind fun signature =>
        (Base64.decode signature).bind fun signature => pure { keyId, algorithm, headers, signature }) =
      finish slots keyId algorithm headers := by
    rw [finish]
    refine Option.bind_congr fun signature _ => ?_
    split_ifs <;> rfl
  cases slots.headers with
  | none => exact hfinish _
  | some list =>
    simp only [headersOf]
    split_ifs with hnil
    · rfl
    · exact hfinish _

/-- The code accepts what reads as pairs, with or without a comma at the end, if the parameters are
complete. -/
theorem parse_eq_some_iff {v : String} {params : SignatureParams} :
    parseSignatureHeader Base64.decode v = some params ↔
      ∃ text raws trailing, Scheme v text ∧ Pairs text raws trailing ∧ Complete (trimmed raws) params := by
  rw [parseSignatureHeader_eq]
  simp only [Option.bind_eq_some_iff, Prod.exists, filter_eq_some, headersOf_eq_some, finish_eq_some, guard_eq_some,
    parseParams_eq_some (n := String.length _) le_rfl, putAll_eq_some]
  constructor
  · rintro ⟨scheme, rest, hsplit, -, hscheme, slots, hslots, keyId, ⟨hk, hkne⟩, algorithm, ⟨ha, hane⟩, headers, hh,
      value, hg, hvalue, rfl, rfl, rfl⟩
    obtain ⟨-, rfl⟩ | ⟨raws, trailing, hpairs, hfills⟩ := hslots
    · cases hk
    have hfilled := fills_iff.1 hfills
    simp only [Option.toList_none, List.nil_append] at hfilled
    obtain ⟨hk', ha', hh', hg'⟩ := hfilled
    refine ⟨rest.toList, raws, trailing, scheme_iff.2 ⟨scheme, hsplit, hscheme⟩, hpairs, ⟨hk'.trans hk, hkne⟩,
      ⟨ha'.trans ha, hane⟩, ?_, value, hg'.trans hg, hvalue⟩
    rwa [hh']
  · rintro ⟨text, raws, trailing, hscheme, hpairs, ⟨hk, hkne⟩, ⟨ha, hane⟩, hh, value, hg, hvalue⟩
    have hscheme' : Scheme v (String.ofList text).toList := by rwa [String.toList_ofList]
    obtain ⟨scheme, hsplit, hsig⟩ := scheme_iff.1 hscheme'
    obtain ⟨list, hlist, hnames⟩ : ∃ o : Option String, valuesOf (trimmed raws) "headers" = o.toList ∧
        headersOf o = some params.headers := by
      obtain ⟨hnone, hdate⟩ | ⟨list, hlist, hnames⟩ := hh
      · exact ⟨none, hnone, headersOf_eq_some.2 (.inl ⟨rfl, hdate⟩)⟩
      · exact ⟨some list, hlist, headersOf_eq_some.2 (.inr ⟨list, rfl, hnames⟩)⟩
    refine ⟨scheme, String.ofList text, hsplit, (), hsig, ⟨some params.keyId, some params.algorithm, list, some value⟩,
      .inr ⟨raws, trailing, by rwa [String.toList_ofList], ⟨hk, ha, hlist, hg⟩⟩, params.keyId, ⟨rfl, hkne⟩, params.algorithm,
      ⟨rfl, hane⟩, params.headers, headersOf_eq_some.1 hnames, value, rfl, hvalue, rfl, rfl, rfl⟩

/-! ### Where the code and the grammar differ -/

theorem comma_not_mem_of_blank {ws : List Char} (h : Blank ws) : ',' ∉ ws := by
  intro hmem
  exact absurd (h ',' hmem) (by decide)

/-- What a text of pairs begins with. -/
theorem Pairs.head {l : List Char} {raws : List (String × String)} {trailing : Bool} (h : Pairs l raws trailing) :
    ∃ raw value : String, ∃ r raws', '=' ∉ raw.toList ∧ '"' ∉ value.toList ∧
      l = raw.toList ++ '=' :: '"' :: (value.toList ++ '"' :: r) ∧ raws = (raw, value) :: raws' ∧
      ((Blank r ∧ raws' = [] ∧ trailing = false) ∨
        ∃ ws rest, Blank ws ∧ r = ws ++ ',' :: rest ∧
          ((Blank rest ∧ raws' = [] ∧ trailing = true) ∨ Pairs rest raws' trailing)) := by
  cases h with
  | last hraw hvalue hws => exact ⟨_, _, _, _, hraw, hvalue, rfl, rfl, .inl ⟨hws, rfl, rfl⟩⟩
  | comma hraw hvalue hws hws' =>
    exact ⟨_, _, _, _, hraw, hvalue, rfl, rfl, .inr ⟨_, _, hws, rfl, .inl ⟨hws', rfl, rfl⟩⟩⟩
  | cons hraw hvalue hws hrest =>
    exact ⟨_, _, _, _, hraw, hvalue, rfl, rfl, .inr ⟨_, _, hws, rfl, .inr hrest⟩⟩

/-- A text reads as pairs in one way. -/
theorem Pairs.unique {l : List Char} {ps ps' : List (String × String)} {trailing trailing' : Bool}
    (h : Pairs l ps trailing) (h' : Pairs l ps' trailing') : ps = ps' ∧ trailing = trailing' := by
  obtain ⟨name, value, r, tail, hname, hvalue, hl, rfl, htail⟩ := h.head
  obtain ⟨name', value', r', tail', hname', hvalue', hl', rfl, htail'⟩ := h'.head
  obtain ⟨hn, hrest⟩ := Text.append_cons_inj_of_not_mem hname hname' (hl.symm.trans hl')
  obtain ⟨hv, rfl⟩ := Text.append_cons_inj_of_not_mem hvalue hvalue' (List.cons.inj hrest).2
  obtain rfl := String.toList_inj.1 hn
  obtain rfl := String.toList_inj.1 hv
  obtain ⟨hblank, rfl, rfl⟩ | ⟨ws, rest, hws, hr, htail⟩ := htail
  · obtain ⟨-, rfl, rfl⟩ | ⟨ws', rest', -, hr, -⟩ := htail'
    · exact ⟨rfl, rfl⟩
    · exact absurd (by simp [hr]) (comma_not_mem_of_blank hblank)
  · obtain ⟨hblank, -⟩ | ⟨ws', rest', hws', hr', htail'⟩ := htail'
    · exact absurd (by simp [hr]) (comma_not_mem_of_blank hblank)
    · obtain ⟨rfl, rfl⟩ := Text.append_cons_inj_of_not_mem (comma_not_mem_of_blank hws)
        (comma_not_mem_of_blank hws') (hr.symm.trans hr')
      obtain ⟨hend, rfl, rfl⟩ | hpairs := htail
      · obtain ⟨-, rfl, rfl⟩ | hpairs' := htail'
        · exact ⟨rfl, rfl⟩
        · exact absurd hend hpairs'.not_blank
      · obtain ⟨hend, -⟩ | hpairs' := htail'
        · exact absurd hend hpairs.not_blank
        · have hshort : rest.length < l.length := by
            rw [hl, hr]
            simp only [List.length_append, List.length_cons]
            omega
          obtain ⟨rfl, rfl⟩ := hpairs.unique hpairs'
          exact ⟨rfl, rfl⟩
termination_by l.length

theorem Scheme.unique {v : String} {text text' : List Char} (h : Scheme v text) (h' : Scheme v text') : text = text' := by
  obtain ⟨scheme, hv, hscheme⟩ := h
  obtain ⟨scheme', hv', hscheme'⟩ := h'
  have hlen : scheme.length = scheme'.length := by
    simpa using congrArg List.length (hscheme.trans hscheme'.symm)
  exact (List.append_inj (hv.symm.trans hv') hlen).2

/-- Nothing blank follows the last quote of a header. -/
theorem Scheme.blank_end {v : String} {l ws : List Char} (h : Scheme v (l ++ ws)) (hws : Blank ws) : ws = [] := by
  obtain ⟨scheme, hv, -⟩ := h
  by_contra hne
  obtain ⟨init, c, rfl⟩ := List.eq_nil_or_concat ws |>.resolve_left hne
  have hlast : ((Text.trimStart v).toList.reverse.dropWhile Text.isWhitespace).head? = some c := by
    rw [Text.trim, Text.trimEnd, String.toList_ofList, List.reverse_eq_iff] at hv
    rw [hv]
    simp
  have hwhite := hws c (by simp)
  generalize (Text.trimStart v).toList.reverse = cs at hlast
  have hnot := List.head?_dropWhile_not Text.isWhitespace cs
  rw [hlast] at hnot
  exact absurd hwhite (by simpa using hnot)

/-- The names of a text are names as they stand in it: the first with nothing before it, the others with
whitespace between the comma and them. -/
def Names : List (String × String) → Prop
  | [] => True
  | p :: raws => IsName p.1 ∧ ∀ q ∈ raws, IsName (Text.trimStart q.1)

section PairLists

variable {name : String} {lead text : List Char} {ps raws : List (String × String)}

theorem IsName.eq_not_mem (h : IsName name) : '=' ∉ name.toList := fun hmem => (h.2 '=' hmem).2.1 rfl

theorem blank_nil : Blank [] := fun _ hc => absurd hc List.not_mem_nil

/-- The whitespace before a name is what trimming takes off. -/
theorem IsName.trimStart_lead (h : IsName name) (hlead : Blank lead) :
    Text.trimStart (String.ofList (lead ++ name.toList)) = name := by
  obtain ⟨c, cs, hname⟩ := List.exists_cons_of_ne_nil (mt String.toList_eq_nil_iff.1 h.1)
  have hc : Text.isWhitespace c = false := (h.2 c (by simp [hname])).1
  rw [Text.trimStart, String.toList_ofList, List.dropWhile_append_of_pos hlead, hname,
    List.dropWhile_cons_of_neg (by simp [hc]), ← hname, String.ofList_toList]

theorem IsName.trim (h : IsName name) : Text.trim name = name := by
  have hnone {o : Option Char} (ho : ∀ c ∈ o, c ∈ name.toList) : o.any Text.isWhitespace = false := by
    cases o with
    | none => rfl
    | some c => exact (h.2 c (ho c rfl)).1
  exact Text.trim_eq_self (hnone fun c hc => List.mem_of_mem_head? hc) (hnone fun c hc => List.mem_of_getLast? hc)

theorem IsName.trim_of_trimStart {raw : String} (h : IsName (Text.trimStart raw)) :
    Text.trim raw = Text.trimStart raw := by
  rw [← Text.trim_trimStart, h.trim]

theorem IsName.trim_lead (h : IsName name) (hlead : Blank lead) :
    Text.trim (String.ofList (lead ++ name.toList)) = name := by
  rw [← Text.trim_trimStart, h.trimStart_lead hlead, h.trim]

theorem eq_not_mem_lead (h : IsName name) (hlead : Blank lead) :
    '=' ∉ (String.ofList (lead ++ name.toList)).toList := by
  rw [String.toList_ofList, List.mem_append, not_or]
  exact ⟨fun hmem => absurd (hlead '=' hmem) (by decide), h.eq_not_mem⟩

/-- A list of the grammar reads as pairs, also after whitespace. -/
theorem PairList.pairs (h : PairList text ps) (hlead : Blank lead) :
    ∃ raws, Pairs (lead ++ text) raws false ∧ (∀ q ∈ raws, IsName (Text.trimStart q.1)) ∧ trimmed raws = ps ∧
      (lead = [] → Names raws) := by
  induction h generalizing lead with
  | @one name value hname hvalue =>
    have hpairs := Pairs.last (eq_not_mem_lead hname hlead) hvalue blank_nil
    rw [String.toList_ofList, List.append_assoc] at hpairs
    refine ⟨_, hpairs, ?_, ?_, ?_⟩
    · rw [List.forall_mem_singleton, hname.trimStart_lead hlead]
      exact hname
    · rw [trimmed, List.map_singleton, hname.trim_lead hlead]
    · rintro rfl
      exact ⟨by simpa using hname, by simp⟩
  | @cons name value ws ws' rest ps hname hvalue hws hws' hrest ih =>
    obtain ⟨raws, hpairs, hnames, rfl, -⟩ := ih hws'
    have hpairs := Pairs.cons (eq_not_mem_lead hname hlead) hvalue hws hpairs
    rw [String.toList_ofList, List.append_assoc] at hpairs
    refine ⟨_, hpairs, ?_, ?_, ?_⟩
    · rintro q (_ | ⟨_, hq⟩)
      · rwa [hname.trimStart_lead hlead]
      · exact hnames q hq
    · rw [trimmed, List.map_cons, hname.trim_lead hlead]
      rfl
    · rintro rfl
      exact ⟨by simpa using hname, hnames⟩

/-- Pairs whose names are names, after their whitespace, are a list of the grammar with whitespace around
it. -/
theorem Pairs.pairList {trailing : Bool} (h : Pairs text raws trailing) (htrailing : trailing = false)
    (hnames : ∀ q ∈ raws, IsName (Text.trimStart q.1)) :
    ∃ lead body ws, Blank lead ∧ Blank ws ∧ text = lead ++ (body ++ ws) ∧ PairList body (trimmed raws) := by
  have hsplit (raw : String) : raw.toList = raw.toList.takeWhile Text.isWhitespace ++ (Text.trimStart raw).toList := by
    rw [Text.trimStart, String.toList_ofList, List.takeWhile_append_dropWhile]
  have hlead (raw : String) : Blank (raw.toList.takeWhile Text.isWhitespace) := fun c hc => List.mem_takeWhile_imp hc
  induction h with
  | @last raw value ws hraw hvalue hws =>
    have hname : IsName (Text.trimStart raw) := hnames (raw, value) (by simp)
    rw [trimmed, List.map_singleton, hname.trim_of_trimStart]
    refine ⟨_, _, ws, hlead raw, hws, ?_, .one hname hvalue⟩
    conv_lhs => rw [hsplit raw]
    simp
  | comma => cases htrailing
  | @cons raw value ws rest raws trailing hraw hvalue hws _ ih =>
    obtain ⟨lead, body, ws', hlead', hws', rfl, hlist⟩ :=
      ih htrailing fun q hq => hnames q (List.mem_cons_of_mem _ hq)
    have hname : IsName (Text.trimStart raw) := hnames (raw, value) (by simp)
    rw [trimmed, List.map_cons, hname.trim_of_trimStart]
    refine ⟨_, _, ws', hlead raw, hws', ?_, .cons hname hvalue hws hlead' hlist⟩
    conv_lhs => rw [hsplit raw]
    simp

/-- Where the first name stands as it is, no whitespace comes before it. -/
theorem Pairs.lead_eq_nil {trailing : Bool} {rest : List Char} (h : Pairs (lead ++ rest) raws trailing)
    (hnames : Names raws) (hlead : Blank lead) : lead = [] := by
  obtain ⟨raw, value, r, raws', -, -, htext, rfl, -⟩ := h.head
  obtain ⟨c, cs, hraw⟩ := List.exists_cons_of_ne_nil (mt String.toList_eq_nil_iff.1 hnames.1.1)
  cases lead with
  | nil => rfl
  | cons d lead =>
    rw [hraw, List.cons_append, List.cons_append, List.cons.injEq] at htext
    have hwhite := hlead d (by simp)
    rw [htext.1, (hnames.1.2 c (by simp [hraw])).1] at hwhite
    cases hwhite

/-- What follows the scheme is in the grammar if it reads as pairs, without a comma at the end, and the names
are names as they stand in it. -/
theorem pairList_iff {v : String} (hscheme : Scheme v text) :
    PairList text ps ↔ ∃ raws, Pairs text raws false ∧ Names raws ∧ trimmed raws = ps := by
  constructor
  · intro h
    obtain ⟨raws, hpairs, -, htrimmed, hnames⟩ := h.pairs blank_nil
    exact ⟨raws, hpairs, hnames rfl, htrimmed⟩
  · rintro ⟨raws, hpairs, hnames, rfl⟩
    have hall : ∀ q ∈ raws, IsName (Text.trimStart q.1) := by
      cases raws with
      | nil => simp
      | cons p raws =>
        rintro q (_ | ⟨_, hq⟩)
        · have hstart := hnames.1.trimStart_lead blank_nil
          rw [List.nil_append, String.ofList_toList] at hstart
          rw [hstart]
          exact hnames.1
        · exact hnames.2 q hq
    obtain ⟨lead, body, ws, hlead, hws, rfl, hlist⟩ := hpairs.pairList rfl hall
    obtain rfl := hpairs.lead_eq_nil hnames hlead
    rw [List.nil_append] at hscheme ⊢
    obtain rfl := hscheme.blank_end hws
    rwa [List.append_nil]

end PairLists

/-- The loop of a header ends: more turns than its text has characters change nothing. -/
def LoopEnds (v : String) : Prop :=
  ∀ scheme rest n, Text.splitAtChecked 10 (Text.trim v) = some (scheme, rest) →
    (Text.trimStart rest).length ≤ n →
    parseParams n (Text.trimStart rest) {} = parseParams (Text.trimStart rest).length (Text.trimStart rest) {}

/-- The code meets its grammar on a value: it returns parameters exactly if the value is in the grammar, and
these. -/
def MeetsGrammar (v : String) : Prop :=
  LoopEnds v ∧ ∀ params, parseSignatureHeader Base64.decode v = some params ↔ Documented v params

/-- A header whose parameters are complete, with a comma after its last pair or with a name that is none as it
stands there. -/
def Sloppy (v : String) : Prop :=
  ∃ text raws trailing params, Scheme v text ∧ Pairs text raws trailing ∧ Complete (trimmed raws) params ∧
    (trailing = true ∨ ¬ Names raws)

theorem loopEnds (v : String) : LoopEnds v := by
  intro scheme rest n _ hn
  apply Option.ext
  intro out
  rw [parseParams_eq_some hn, parseParams_eq_some (n := (Text.trimStart rest).length) le_rfl]

/-- A sloppy value is accepted, and is not in the grammar. -/
theorem Sloppy.not_meetsGrammar {v : String} (h : Sloppy v) : ¬ MeetsGrammar v := by
  rintro ⟨-, hmeets⟩
  obtain ⟨text, raws, trailing, params, hscheme, hpairs, hcomplete, hsloppy⟩ := h
  obtain ⟨text', ps, hscheme', hlist, -⟩ :=
    (hmeets params).1 (parse_eq_some_iff.2 ⟨text, raws, trailing, hscheme, hpairs, hcomplete⟩)
  obtain rfl := hscheme.unique hscheme'
  obtain ⟨raws', hpairs', hnames, -⟩ := (pairList_iff hscheme).1 hlist
  obtain ⟨rfl, rfl⟩ := hpairs.unique hpairs'
  obtain htrailing | hbad := hsloppy
  · cases htrailing
  · exact hbad hnames

/-- The code meets its grammar on every value but the sloppy ones. -/
theorem meets_grammar_iff (v : String) : MeetsGrammar v ↔ ¬ Sloppy v := by
  constructor
  · intro hmeets hsloppy
    exact hsloppy.not_meetsGrammar hmeets
  · intro h
    refine ⟨loopEnds v, fun params => ?_⟩
    rw [parse_eq_some_iff]
    constructor
    · rintro ⟨text, raws, trailing, hscheme, hpairs, hcomplete⟩
      have hnames : Names raws := by
        by_contra hbad
        exact h ⟨text, raws, trailing, params, hscheme, hpairs, hcomplete, .inr hbad⟩
      cases trailing with
      | false => exact ⟨text, _, hscheme, (pairList_iff hscheme).2 ⟨raws, hpairs, hnames, rfl⟩, hcomplete⟩
      | true => exact absurd ⟨text, raws, true, params, hscheme, hpairs, hcomplete, .inl rfl⟩ h
    · rintro ⟨text, ps, hscheme, hlist, hcomplete⟩
      obtain ⟨raws, hpairs, -, rfl⟩ := (pairList_iff hscheme).1 hlist
      exact ⟨text, raws, false, hscheme, hpairs, hcomplete⟩

/-- A value with a comma after its last parameter. -/
def trailingComma : String := "Signature keyId=\"k\",algorithm=\"a\",signature=\"\","

/-- The comma is not in the grammar, and the value is accepted. -/
theorem trailing_comma_accepted : ¬ MeetsGrammar trailingComma := by
  apply Sloppy.not_meetsGrammar
  refine ⟨_, _, true, ⟨"k", "a", ["date"], []⟩, ⟨"Signature ".toList, ?_, by decide⟩,
    @Pairs.cons "keyId" "k" [] _ _ _ (by decide) (by decide) blank_nil
      (@Pairs.cons "algorithm" "a" [] _ _ _ (by decide) (by decide) blank_nil
        (@Pairs.comma "signature" "" [] [] (by decide) (by decide) blank_nil blank_nil)), ?_, .inl rfl⟩
  · rw [Text.trim_eq_self (by decide +kernel) (by decide +kernel)]
    decide +kernel
  · refine ⟨⟨by decide +kernel, by decide⟩, ⟨by decide +kernel, by decide⟩, .inl ⟨by decide +kernel, rfl⟩, "",
      by decide +kernel, "", .nil, by decide⟩

end G2way.Middleware.Hmac
