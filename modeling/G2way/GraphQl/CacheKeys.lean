import G2way.GraphQl.Policed
import G2way.Lib.JsonRead
import Mathlib.Algebra.Field.Rat

/-!
# Do cache keys separate operations?

A cache key is the digest of `{sdl_hash}\n{name}\n{query}\n{variables}`, so that
"a per-client response can never be replayed to someone else". The variables are
written again by `serde_json`; a `variables` parameter that is not JSON is taken
as it stands, "a spurious miss, never a leak".

## What is proved

`keys_separate_iff`: two requests with the same key are for the same operation,
unless one of two things happened. A `variables` text that `serde_json` does not read
may hold newlines, and so stand for the end of the other request's longer query
(`NewlineShift`). Or the variables are different JSON that is written alike
(`Conflated`): `serde_json` reads a number that is no 64-bit integer as the nearest
double, and where a text has an object with the one key of its `RawValue`, it reads
what that key hides; a text it does not read may itself be what it writes of the other
variables. `shifted_newline_shares_key` is a pair of requests of the first kind.

What the variables come to in a key is `KeyVariables.reading`, and two of them have
one text exactly if they are `Alike`.
-/

namespace G2way.GraphQl

open G2way.Core G2way.Lib G2way.Lib.Result G2way.Middleware

variable {Num : Type} {c : Serde Num}

/-! ### What a key is made of -/

/-- The variables a key is made with. -/
inductive KeyVariables (Num : Type) where
  /-- Of a plain request. -/
  | plain (vars : Option RawVariables)
  /-- Of a persisted one. -/
  | persisted (vars : Option (Json Num))

/-- What a cache key is made of. -/
structure KeyParts (Num : Type) where
  sdlHash : String
  operationName : Option String
  query : String
  vars : KeyVariables Num

/-- The text of the variables. -/
def KeyVariables.text (c : Serde Num) : KeyVariables Num → String
  | .plain vars => canonicalVariables c vars
  | .persisted vars => canonicalJsonVariables c vars

/-- The key. -/
def KeyParts.key (c : Serde Num) (cache : GraphQlCache) (a : KeyParts Num) : String :=
  cache.key a.sdlHash a.operationName a.query (a.vars.text c)

/-- The parts of the key computed for a request, where one is: on the persisted and on the plain path,
after policing, if there is a cache and the selected operation is a query. -/
def keyParts (c : Serde Num) (st : LayerState Num) (req : Request) : Option (KeyParts Num) :=
  if st.cache.isNone ∨ req.method = "GET" ∧ st.playground = some req.path ∨ isWebsocketHandshake req then none
  else match matchPersisted st req with
    | some (p, caps) =>
      if (enforce st.toGraphQlShared (grantsOf st req) p.doc.toDocument).isOk ∧
          selectsQuery p.doc.toDocument p.operationName then
        some ⟨st.sdlHash, p.operationName, p.query, .persisted (persistedVariables p caps req)⟩
      else none
    | none =>
      match police c st req with
      | .ok (x, doc) =>
        if selectsQuery doc.toDocument x.operationName then
          some ⟨st.sdlHash, x.operationName, x.query, .plain x.vars⟩
        else none
      | .error _ => none

/-! ### The same operation -/

/-- The value of a literal. -/
def Literal.value (l : Literal) : ℚ := (if l.negative then -1 else 1) * l.digits * 10 ^ l.exponent

/-- What variables are, as JSON. -/
inductive VariablesValue where
  /-- Absent, `null` or an empty object. -/
  | absent
  /-- A JSON value: objects are maps, and numbers are what the literals say. -/
  | json (value : Option (Json ℚ))
  /-- A text that is not JSON. -/
  | notJson (text : String)

/-- The JSON value of what a parser read. -/
def valueOfJson (j : Json Literal) : VariablesValue :=
  match j with
  | .null => .absent
  | .object [] => .absent
  | j => .json (j.canonical fun l => some l.value)

/-- The JSON value of a text. -/
def valueOfText (c : Serde Num) (text : String) : VariablesValue :=
  match c.parse (Text.utf8 text) with
  | some j => valueOfJson j
  | none => .notJson text

/-- The JSON value of the variables. Those of a persisted request are what it sends. -/
def KeyVariables.value (c : Serde Num) : KeyVariables Num → VariablesValue
  | .plain none => .absent
  | .plain (some (.parsed j)) => valueOfJson j
  | .plain (some (.text t)) => valueOfText c t
  | .persisted none => .absent
  | .persisted (some v) => valueOfText c (v.toText c.display)

/-- **The same operation**: the same active schema, operation name, query text and variables. -/
def KeyParts.Same (c : Serde Num) (a b : KeyParts Num) : Prop :=
  a.sdlHash = b.sdlHash ∧ a.operationName = b.operationName ∧ a.query = b.query ∧ a.vars.value c = b.vars.value c

/-- What variables come to in a key. -/
inductive Reading (Num : Type) where
  /-- Nothing: absent, `null` or an empty object. -/
  | empty
  /-- Any other value. -/
  | json (value : Json Num)
  /-- A text that is not read. -/
  | notRead (text : String)

/-- The reading of a value. -/
def Reading.ofJson : Json Num → Reading Num
  | .null => .empty
  | .object [] => .empty
  | v => .json v

/-- What `serde_json` reads the variables as: those of a `POST` come out of the envelope, those of a `GET` are
a text. -/
def KeyVariables.reading (c : Serde Num) : KeyVariables Num → Reading Num
  | .plain none => .empty
  | .plain (some (.parsed j)) => ((j.canonical c.number).map Reading.ofJson).getD .empty
  | .plain (some (.text t)) => ((valueFromStr c t).map Reading.ofJson).getD (.notRead t)
  | .persisted none => .empty
  | .persisted (some v) => .ofJson v

/-- Two readings that are one, or a text that is not read and is what is written of the other. -/
inductive Alike (c : Serde Num) : Reading Num → Reading Num → Prop
  /-- One reading. -/
  | same (r : Reading Num) : Alike c r r
  /-- The second is the text of the first. -/
  | written (v : Json Num) : Alike c (.json v) (.notRead (v.toText c.display))
  /-- The first is the text of the second. -/
  | unread (v : Json Num) : Alike c (.notRead (v.toText c.display)) (.json v)

/-- The variables of `a` are a text that is not read and begins, before a newline, with the end of the
query of `b`; what comes after is the text of the variables of `b`. -/
def NewlineShift (c : Serde Num) (a b : KeyParts Num) : Prop :=
  a.sdlHash = b.sdlHash ∧ a.operationName = b.operationName ∧
  ∃ text s, a.vars = .plain (some (.text text)) ∧ valueFromStr c text = none ∧ b.query = a.query ++ "\n" ++ s ∧
    text = s ++ "\n" ++ b.vars.text c

/-- The requests differ in their variables only, and these are different JSON that reads alike. -/
def Conflated (c : Serde Num) (a b : KeyParts Num) : Prop :=
  a.sdlHash = b.sdlHash ∧ a.operationName = b.operationName ∧ a.query = b.query ∧
  Alike c (a.vars.reading c) (b.vars.reading c) ∧ a.vars.value c ≠ b.vars.value c

/-! ### Facts about names and digests -/

theorem newline_not_mem_of_isName {n : Name} (h : isName n = true) : n ≠ "" ∧ '\n' ∉ n.toList := by
  unfold isName at h
  split at h
  · simp at h
  · next ch rest hlist =>
    simp only [Bool.and_eq_true, List.all_eq_true] at h
    have hletter : ∀ e : Char, e = '\n' → (e.isAlpha || e == '_') = false ∧ e.isDigit = false := by
      rintro e rfl
      decide
    refine ⟨?_, ?_⟩
    · rintro rfl
      simp at hlist
    · rw [hlist]
      intro hmem
      rcases List.mem_cons.1 hmem with heq | hmem
      · simp [hletter ch heq.symm] at h
      · have := h.2 _ hmem
        simp [hletter '\n' rfl] at this

/-! ### What is known of the parts of a key -/

/-- What is relied on in `serde_json`. -/
structure SerdeLaws (c : Serde Num) : Prop where
  /-- The text of a number is a JSON number, and determines it. -/
  numbers : Json.NumberText c.display
  readsNull : c.parse (Text.utf8 "null") = some .null
  readsEmpty : c.parse (Text.utf8 "\x7b\x7d") = some (.object [])

/-- The variables came out of a request: a text is not empty. -/
def KeyVariables.Extracted : KeyVariables Num → Prop
  | .plain (some (.text t)) => t ≠ ""
  | _ => True

/-- The parts of a request's key are those of one that came out of it. -/
structure KeyParts.Extracted (a : KeyParts Num) : Prop where
  /-- A selected operation that has a name has a name of the grammar. -/
  name : ∀ n, a.operationName = some n → isName n = true
  vars : a.vars.Extracted

theorem isName_of_selectsQuery {doc : ValidDocument} {n : Name}
    (h : selectsQuery doc.toDocument (some n) = true) : isName n = true := by
  simp only [selectsQuery, Document.getOperation, Option.any_eq_true] at h
  obtain ⟨op, hop, _⟩ := h
  obtain ⟨_, _, hsplit, _⟩ := List.lookup_eq_some_iff.1 hop
  exact doc.operationNames (n, op) (by simp [hsplit])

/-- The variables of an extracted query. -/
theorem extractQuery_vars {maxBodyBytes : ℕ} {req : Request} {x : ExtractedQuery}
    (h : extractQuery c maxBodyBytes req = .ok x) : (KeyVariables.plain x.vars : KeyVariables Num).Extracted := by
  unfold extractQuery at h
  split_ifs at h
  · simp only [bind_eq_ok, okOr_eq_ok, pure_eq_ok] at h
    obtain ⟨_, _, rfl⟩ := h
    cases hv : (req.query.bind (queryParameter · "variables")).filter notBlank with
    | none => simp [KeyVariables.Extracted]
    | some t =>
      simp only [Option.map_some, KeyVariables.Extracted]
      rintro rfl
      exact absurd (Option.filter_eq_some_iff.1 hv).2 (by decide)
  · simp only [bind_eq_ok, okOr_eq_ok, pure_eq_ok] at h
    obtain ⟨_, _, envelope, henvelope, _, _, rfl⟩ := h
    cases envelope.vars <;> exact trivial

theorem keyParts_extracted {st : LayerState Num} {req : Request} {a : KeyParts Num}
    (h : keyParts c st req = some a) : a.sdlHash = st.sdlHash ∧ a.Extracted := by
  unfold keyParts at h
  split_ifs at h
  split at h
  · next p caps _ =>
    split_ifs at h with hcond
    simp only [Option.some.injEq] at h
    subst h
    refine ⟨rfl, ?_, trivial⟩
    intro n hn
    exact isName_of_selectsQuery (by rw [← hn]; exact hcond.2)
  · split at h
    · next x doc hpolice =>
      split_ifs at h with hselects
      simp only [Option.some.injEq] at h
      subst h
      simp only [police, bind_eq_ok, pure_eq_ok] at hpolice
      obtain ⟨x', hx, _, _, _, _, _, _, hpair⟩ := hpolice
      obtain ⟨rfl, rfl⟩ := Prod.mk.inj hpair
      refine ⟨rfl, ?_, extractQuery_vars hx⟩
      intro n hn
      exact isName_of_selectsQuery (by rw [← hn]; exact hselects)
    · simp at h

/-! ### The text of the variables -/

/-- The text of a reading. -/
def Reading.text (c : Serde Num) : Reading Num → String
  | .empty => ""
  | .json v => v.toText c.display
  | .notRead t => t

/-- What is written of a value: nothing, where it is `null` or an empty object. -/
theorem orEmpty_toText (hc : SerdeLaws c) (v : Json Num) :
    orEmpty (v.toText c.display) = (Reading.ofJson v).text c := by
  have hnot (hnull : v ≠ .null) (hempty : v ≠ .object []) : orEmpty (v.toText c.display) = v.toText c.display := by
    refine if_neg ?_
    rintro (h | h)
    · exact hnull (Json.toText_injective hc.numbers (h.trans rfl))
    · exact hempty (Json.toText_injective hc.numbers (h.trans rfl))
  cases v with
  | null => rfl
  | object members =>
    cases members with
    | nil => rfl
    | cons => exact hnot (by simp) (by simp)
  | _ => exact hnot (by simp) (by simp)

/-- A text that is not read is taken as it stands. -/
theorem orEmpty_notRead (hc : SerdeLaws c) {t : String} (h : valueFromStr c t = none) : orEmpty t = t := by
  refine if_neg ?_
  rintro (rfl | rfl)
  · rw [valueFromStr, hc.readsNull] at h
    cases h
  · rw [valueFromStr, hc.readsEmpty] at h
    cases h

/-- The text of variables is that of their reading. -/
theorem text_reading (hc : SerdeLaws c) (vars : KeyVariables Num) : vars.text c = (vars.reading c).text c := by
  match vars with
  | .plain none => rfl
  | .plain (some (.parsed j)) =>
    rw [KeyVariables.text, canonicalVariables, KeyVariables.reading]
    cases j.canonical c.number with
    | none => rfl
    | some v => exact orEmpty_toText hc v
  | .plain (some (.text t)) =>
    rw [KeyVariables.text, canonicalVariables, KeyVariables.reading]
    cases hv : valueFromStr c t with
    | none => exact orEmpty_notRead hc hv
    | some v => exact orEmpty_toText hc v
  | .persisted none => rfl
  | .persisted (some v) => exact orEmpty_toText hc v

/-- A value that is read is not `null`, and a text that is not read is not empty. -/
def Reading.Proper : Reading Num → Prop
  | .notRead t => t ≠ ""
  | _ => True

theorem proper_ofJson (v : Json Num) : (Reading.ofJson v).Proper := by
  unfold Reading.ofJson
  split <;> exact trivial

theorem proper_reading {vars : KeyVariables Num} (h : vars.Extracted) : (vars.reading c).Proper := by
  match vars with
  | .plain none => exact trivial
  | .plain (some (.parsed j)) =>
    rw [KeyVariables.reading]
    cases j.canonical c.number with
    | none => exact trivial
    | some v => exact proper_ofJson v
  | .plain (some (.text t)) =>
    rw [KeyVariables.reading]
    cases valueFromStr c t with
    | none => exact h
    | some v => exact proper_ofJson v
  | .persisted none => exact trivial
  | .persisted (some v) => exact proper_ofJson v

/-- Two readings have one text exactly if they are alike. -/
theorem text_eq_iff_alike (hc : SerdeLaws c) {r r' : Reading Num} (h : r.Proper) (h' : r'.Proper) :
    r.text c = r'.text c ↔ Alike c r r' := by
  constructor
  · intro htext
    match r, r' with
    | .empty, .empty => exact .same _
    | .empty, .json w => exact absurd htext.symm (Json.toText_ne_empty hc.numbers w)
    | .empty, .notRead u => exact absurd htext.symm h'
    | .json v, .empty => exact absurd htext (Json.toText_ne_empty hc.numbers v)
    | .json v, .json w =>
      rw [Json.toText_injective hc.numbers htext]
      exact .same _
    | .json v, .notRead u =>
      obtain rfl : v.toText c.display = u := htext
      exact .written v
    | .notRead t, .empty => exact absurd htext h
    | .notRead t, .json w =>
      obtain rfl : t = w.toText c.display := htext
      exact .unread w
    | .notRead t, .notRead u =>
      obtain rfl : t = u := htext
      exact .same _
  · rintro (_ | _ | _) <;> rfl

/-- Only a text that is not read holds a newline. -/
theorem notRead_of_newline (hc : SerdeLaws c) {vars : KeyVariables Num} (h : '\n' ∈ (vars.text c).toList) :
    ∃ t, vars = .plain (some (.text t)) ∧ valueFromStr c t = none ∧ vars.text c = t := by
  have hjson (v : Json Num) : '\n' ∉ ((Reading.ofJson v).text c).toList := by
    unfold Reading.ofJson
    split
    · exact List.not_mem_nil
    · exact List.not_mem_nil
    · exact Json.newline_not_mem_toText hc.numbers v
  match vars with
  | .plain none => exact absurd h List.not_mem_nil
  | .plain (some (.parsed j)) =>
    rw [text_reading hc, KeyVariables.reading] at h
    cases hv : j.canonical c.number with
    | none =>
      rw [hv] at h
      exact absurd h List.not_mem_nil
    | some v =>
      rw [hv] at h
      exact absurd h (hjson v)
  | .plain (some (.text t)) =>
    cases hv : valueFromStr c t with
    | none =>
      refine ⟨t, rfl, hv, ?_⟩
      rw [text_reading hc, KeyVariables.reading, hv]
      rfl
    | some v =>
      rw [text_reading hc, KeyVariables.reading, hv] at h
      exact absurd h (hjson v)
  | .persisted none => exact absurd h List.not_mem_nil
  | .persisted (some v) =>
    rw [text_reading hc] at h
    exact absurd h (hjson v)

/-! ### Keys -/

theorem toList_keyText (sdlHash : String) (name : Option String) (query text : String) :
    (keyText sdlHash name query text).toList =
      sdlHash.toList ++ '\n' :: ((name.getD "").toList ++ '\n' :: (query.toList ++ '\n' :: text.toList)) := by
  simp [keyText, String.toList_append]

/-- A name, and no name, are told apart. -/
theorem name_eq_of_getD {a b : KeyParts Num} (ha : a.Extracted) (hb : b.Extracted)
    (h : a.operationName.getD "" = b.operationName.getD "") : a.operationName = b.operationName := by
  cases han : a.operationName with
  | none =>
    cases hbn : b.operationName with
    | none => rfl
    | some n =>
      rw [han, hbn, Option.getD_none, Option.getD_some] at h
      exact absurd h.symm (newline_not_mem_of_isName (hb.name n hbn)).1
  | some m =>
    cases hbn : b.operationName with
    | none =>
      rw [han, hbn, Option.getD_none, Option.getD_some] at h
      exact absurd h (newline_not_mem_of_isName (ha.name m han)).1
    | some n =>
      rw [han, hbn, Option.getD_some, Option.getD_some] at h
      rw [h]

theorem newline_not_mem_name {a : KeyParts Num} (ha : a.Extracted) :
    '\n' ∉ (a.operationName.getD "").toList := by
  cases han : a.operationName with
  | none => simp
  | some n => exact (newline_not_mem_of_isName (ha.name n han)).2

/-- The key of the parts is the key the call asks the cache for, on the plain path. -/
theorem cacheKey_plain {st : LayerState Num} {req : Request} {cache : GraphQlCache} {x : ExtractedQuery}
    {doc : ValidDocument} (hcache : st.cache = some cache)
    (hplayground : ¬ (req.method = "GET" ∧ st.playground = some req.path))
    (hhandshake : isWebsocketHandshake req = false) (hpersisted : matchPersisted st req = none)
    (hpolice : police c st req = .ok (x, doc)) :
    cacheKey st doc.toDocument x.operationName x.query (canonicalVariables c x.vars) =
      (keyParts c st req).map (KeyParts.key c cache) := by
  by_cases hselects : selectsQuery doc.toDocument x.operationName = true
  · simp [cacheKey, keyParts, hcache, hplayground, hhandshake, hpersisted, hpolice, hselects, KeyParts.key,
      KeyVariables.text]
  · simp [cacheKey, keyParts, hcache, hplayground, hhandshake, hpersisted, hpolice, hselects]

/-- And on the persisted path. -/
theorem cacheKey_persisted {st : LayerState Num} {req : Request} {cache : GraphQlCache} {p : Persisted Num}
    {caps : List (String × String)} (hcache : st.cache = some cache)
    (hplayground : ¬ (req.method = "GET" ∧ st.playground = some req.path))
    (hhandshake : isWebsocketHandshake req = false) (hpersisted : matchPersisted st req = some (p, caps))
    (henforce : enforce st.toGraphQlShared (grantsOf st req) p.doc.toDocument = .ok ()) :
    cacheKey st p.doc.toDocument p.operationName p.query
        (canonicalJsonVariables c (persistedVariables p caps req)) =
      (keyParts c st req).map (KeyParts.key c cache) := by
  by_cases hselects : selectsQuery p.doc.toDocument p.operationName = true
  · simp [cacheKey, keyParts, hcache, hplayground, hhandshake, hpersisted, henforce, hselects, KeyParts.key,
      KeyVariables.text, Except.isOk, Except.toBool]
  · simp [cacheKey, keyParts, hcache, hplayground, hhandshake, hpersisted, hselects]

theorem key_eq_iff {cache : GraphQlCache} (hhash : Function.Injective cache.hashKey) {a b : KeyParts Num} :
    a.key c cache = b.key c cache ↔
      keyText a.sdlHash a.operationName a.query (a.vars.text c) =
        keyText b.sdlHash b.operationName b.query (b.vars.text c) := by
  simp only [KeyParts.key, GraphQlCache.key, String.append_right_inj]
  exact hhash.eq_iff

/-- Equal keys are the digests of one text, so the parts are the same or shifted across a newline. -/
theorem parts_of_key_eq {cache : GraphQlCache} (hhash : Function.Injective cache.hashKey) {a b : KeyParts Num}
    (ha : a.Extracted) (hb : b.Extracted) (hsdla : '\n' ∉ a.sdlHash.toList)
    (hsdlb : '\n' ∉ b.sdlHash.toList) (h : a.key c cache = b.key c cache) :
    a.sdlHash = b.sdlHash ∧ a.operationName = b.operationName ∧
      ((a.query = b.query ∧ a.vars.text c = b.vars.text c) ∨
       (∃ s, b.query = a.query ++ "\n" ++ s ∧ a.vars.text c = s ++ "\n" ++ b.vars.text c) ∨
       ∃ s, a.query = b.query ++ "\n" ++ s ∧ b.vars.text c = s ++ "\n" ++ a.vars.text c) := by
  have hlist := congrArg String.toList ((key_eq_iff hhash).1 h)
  rw [toList_keyText, toList_keyText] at hlist
  obtain ⟨hsdl, hlist⟩ := Text.append_cons_inj_of_not_mem hsdla hsdlb hlist
  obtain ⟨hname, hlist⟩ :=
    Text.append_cons_inj_of_not_mem (newline_not_mem_name ha) (newline_not_mem_name hb) hlist
  refine ⟨String.toList_injective hsdl, name_eq_of_getD ha hb (String.toList_injective hname), ?_⟩
  rcases Text.append_cons_eq_append_cons hlist with ⟨hq, hv⟩ | ⟨s, hq, hv⟩ | ⟨s, hq, hv⟩
  · exact .inl ⟨String.toList_injective hq, String.toList_injective hv⟩
  · refine .inr (.inl ⟨String.ofList s, ?_, ?_⟩)
    · apply String.toList_injective
      simpa [String.toList_append] using hq
    · apply String.toList_injective
      simpa [String.toList_append] using hv
  · refine .inr (.inr ⟨String.ofList s, ?_, ?_⟩)
    · apply String.toList_injective
      simpa [String.toList_append] using hq
    · apply String.toList_injective
      simpa [String.toList_append] using hv

/-- A shift across a newline leaves the key as it is. -/
theorem NewlineShift.key_eq (cache : GraphQlCache) {a b : KeyParts Num} (hc : SerdeLaws c)
     (h : NewlineShift c a b) : a.key c cache = b.key c cache ∧ a.query ≠ b.query := by
  obtain ⟨hsdl, hname, text, s, hvars, hread, hquery, htext⟩ := h
  have hvarsText : a.vars.text c = text := by
    rw [text_reading hc, hvars, KeyVariables.reading, hread]
    rfl
  refine ⟨?_, ?_⟩
  · have hkey : keyText a.sdlHash a.operationName a.query (a.vars.text c) =
        keyText b.sdlHash b.operationName b.query (b.vars.text c) := by
      rw [hvarsText, hsdl, hname, hquery, htext]
      simp only [keyText, String.append_assoc]
    simp only [KeyParts.key, GraphQlCache.key, hkey]
  · intro heq
    rw [heq] at hquery
    have hlen := congrArg String.length hquery
    simp only [String.length_append, show "\n".length = 1 from rfl] at hlen
    omega

/-- Variables that read alike are written the same, and no others are. -/
theorem vars_text_eq_iff (hc : SerdeLaws c) {a b : KeyParts Num} (ha : a.Extracted) (hb : b.Extracted) :
    a.vars.text c = b.vars.text c ↔ Alike c (a.vars.reading c) (b.vars.reading c) := by
  rw [text_reading hc, text_reading hc]
  exact text_eq_iff_alike hc (proper_reading ha.vars) (proper_reading hb.vars)

/-- **Two requests share a key only for the same operation, unless their parts are shifted across a
newline or their variables conflated**; and where one of these happened, they do share it. -/
theorem keys_separate_iff (c : Serde Num) (hc : SerdeLaws c) (cache : GraphQlCache)
    (hhash : Function.Injective cache.hashKey) (st₁ st₂ : LayerState Num) (hsdl₁ : '\n' ∉ st₁.sdlHash.toList)
    (hsdl₂ : '\n' ∉ st₂.sdlHash.toList) (req₁ req₂ : Request) (a b : KeyParts Num)
    (ha : keyParts c st₁ req₁ = some a) (hb : keyParts c st₂ req₂ = some b) :
    (a.key c cache = b.key c cache → a.Same c b) ↔
      ¬ NewlineShift c a b ∧ ¬ NewlineShift c b a ∧ ¬ Conflated c a b := by
  obtain ⟨hsdla, hea⟩ := keyParts_extracted ha
  obtain ⟨hsdlb, heb⟩ := keyParts_extracted hb
  constructor
  · intro hsame
    refine ⟨fun hshift => ?_, fun hshift => ?_, ?_⟩
    · obtain ⟨hkey, hquery⟩ := hshift.key_eq cache hc
      exact hquery (hsame hkey).2.2.1
    · obtain ⟨hkey, hquery⟩ := hshift.key_eq cache hc
      exact hquery (hsame hkey.symm).2.2.1.symm
    · rintro ⟨hsdl, hname, hquery, halike, hvalue⟩
      refine hvalue (hsame ?_).2.2.2
      rw [KeyParts.key, KeyParts.key, hsdl, hname, hquery, (vars_text_eq_iff hc hea heb).2 halike]
  · rintro ⟨hab, hba, hconflated⟩ hkey
    obtain ⟨hsdl, hname, ⟨hquery, htext⟩ | ⟨s, hquery, htext⟩ | ⟨s, hquery, htext⟩⟩ :=
      parts_of_key_eq hhash hea heb (hsdla ▸ hsdl₁) (hsdlb ▸ hsdl₂) hkey
    · refine ⟨hsdl, hname, hquery, ?_⟩
      by_contra hvalue
      exact hconflated ⟨hsdl, hname, hquery, (vars_text_eq_iff hc hea heb).1 htext, hvalue⟩
    · have hline : '\n' ∈ (a.vars.text c).toList := by
        rw [htext]
        simp [String.toList_append]
      obtain ⟨t, hvars, hread, ht⟩ := notRead_of_newline hc hline
      exact absurd ⟨hsdl, hname, t, s, hvars, hread, hquery, ht ▸ htext⟩ hab
    · have hline : '\n' ∈ (b.vars.text c).toList := by
        rw [htext]
        simp [String.toList_append]
      obtain ⟨t, hvars, hread, ht⟩ := notRead_of_newline hc hline
      exact absurd ⟨hsdl.symm, hname.symm, t, s, hvars, hread, hquery, ht ▸ htext⟩ hba

/-! ### A comment in two places -/

/-- Variables, and a text that hides them. -/
def trueVariables : String := "\x7b\"a\":true\x7d"

/-- The same variables, the value behind the key of a `RawValue`. -/
def hiddenTrueVariables : String := "\x7b\"a\":\x7b\"$serde_json::private::RawValue\":\"true\"\x7d\x7d"

/-- JSON without numbers; of it, `null`, `true`, the empty object and the variables above are read. -/
def plainSerde : Serde Empty where
  parse bytes :=
    if bytes = Text.utf8 "null" then some .null
    else if bytes = Text.utf8 "true" then some (.bool true)
    else if bytes = Text.utf8 "\x7b\x7d" then some (.object [])
    else if bytes = Text.utf8 trueVariables then some (.object [("a", .bool true)])
    else if bytes = Text.utf8 hiddenTrueVariables then
      some (.object [("a", .object [("$serde_json::private::RawValue", .string "true")])])
    else none
  number _ := none
  display := Empty.elim
  describe _ := ""

theorem plainSerde_laws : SerdeLaws plainSerde where
  numbers := ⟨fun n => n.elim, fun n => n.elim, fun n => n.elim⟩
  readsNull := rfl
  readsEmpty := rfl

-- different JSON with the text of one
example : canonicalVariables plainSerde (some (.text hiddenTrueVariables)) = trueVariables ∧
    canonicalVariables plainSerde (some (.text trueVariables)) = trueVariables := by decide +kernel

/-- The digest of `type Query { hello: String }`. -/
def helloSdlHash : String := "94f327bbff58c40247c85a8e0691dcaf26b906285e7f5c031b3ee229c89fe676"

/-- A cache whose hash is that of SHA-256 on one text, and no digest on others. -/
def helloCache : GraphQlCache where
  keyPrefix := "g2:default:cache:gql:graphql:"
  hashKey s :=
    if s = helloSdlHash ++ "\n\n" ++ helloText ++ "\n#x\n" then
      "18cf88de80a8a744fb3259863e10b450a90f4a0780bbd53a4bee9f1d33835917"
    else "no digest of " ++ s
  lookup _ := none

theorem helloCache_hashKey_injective : Function.Injective helloCache.hashKey := by
  intro s t h
  simp only [helloCache] at h
  split_ifs at h with hs ht ht
  · rw [hs, ht]
  · exact absurd (congrArg String.toList h) (by simp [String.toList_append])
  · exact absurd (congrArg String.toList h) (by simp [String.toList_append])
  · exact (String.append_right_inj _).1 h

/-- An API with that cache, whose schema has `hello`. -/
def cachedApi : LayerState Empty where
  apiId := "gql"
  maxBodyBytes := 1000
  parseAndValidate text :=
    if text = helloText ∨ text = helloText ++ "\n#x" then .ok helloDocument else .error ["no such field"]
  sdlHash := helloSdlHash
  cache := some helloCache

/-- The parts of `?query={hello}&variables=#x⏎`. -/
def commentInVariables : KeyParts Empty := ⟨helloSdlHash, none, helloText, .plain (some (.text "#x\n"))⟩

/-- The parts of `?query={hello}⏎#x`. -/
def commentInQuery : KeyParts Empty := ⟨helloSdlHash, none, helloText ++ "\n#x", .plain none⟩

theorem keyParts_commentInVariables :
    keyParts plainSerde cachedApi (getHello "&variables=%23x%0A") = some commentInVariables := rfl

theorem keyParts_commentInQuery : keyParts plainSerde cachedApi (getHello "%0A%23x") = some commentInQuery := rfl

/-- Two requests with different queries that share a key. -/
theorem shifted_newline_shares_key :
    keyParts plainSerde cachedApi (getHello "&variables=%23x%0A") = some commentInVariables ∧
    keyParts plainSerde cachedApi (getHello "%0A%23x") = some commentInQuery ∧
    commentInVariables.key plainSerde helloCache = commentInQuery.key plainSerde helloCache ∧
    ¬ commentInVariables.Same plainSerde commentInQuery := by
  refine ⟨keyParts_commentInVariables, keyParts_commentInQuery, by decide +kernel, ?_⟩
  rintro ⟨-, -, hquery, -⟩
  exact absurd hquery (by decide +kernel)

theorem newline_not_mem_helloSdlHash : '\n' ∉ helloSdlHash.toList := fun hmem =>
  Text.forall_mem_ofList (p := (· ≠ '\n')) (by decide +kernel) _ hmem rfl

theorem keys_separate_iff_comment :
    ¬ (commentInVariables.key plainSerde helloCache = commentInQuery.key plainSerde helloCache →
      commentInVariables.Same plainSerde commentInQuery) := by
  rw [keys_separate_iff plainSerde plainSerde_laws helloCache helloCache_hashKey_injective cachedApi cachedApi
    newline_not_mem_helloSdlHash newline_not_mem_helloSdlHash _ _ _ _ keyParts_commentInVariables keyParts_commentInQuery]
  rintro ⟨hshift, -, -⟩
  exact hshift ⟨rfl, rfl, "#x\n", "#x", rfl, rfl, rfl, rfl⟩

end G2way.GraphQl
