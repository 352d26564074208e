import G2way.GraphQl.Layer

/-!
# Is what is forwarded what was policed?

On the plain path the layer polices one text and forwards the request it read it
from, "the original bytes". Whoever reads the forwarded request need not read the
same text out of it: a query string may have several `query` parameters, or one
whose key is escaped; a `POST` may have one beside its body; and a body that is an
array of three fields is read as an envelope here, and as a batch elsewhere. The
decision record says "a batched array is rejected".

## What is proved

`forwarded_is_policed_iff`: of a request forwarded on the plain path, no other
document can be read exactly when its `query` parameters agree with each other
and with the envelope, and the body of a `POST` is no array (`Unambiguous`). What
the layer does rule out by itself is a duplicate `query` member, and a first
parameter that is not the policed one. `second_query_parameter_is_forwarded` is
a request that is let through with a document nobody looked at.
-/

namespace G2way.GraphQl

open G2way.Core G2way.Lib G2way.Lib.Result G2way.Middleware

variable {Num : Type} {c : Serde Num} {st : LayerState Num} {req : Request}

/-! ### Form decoding -/

/-- A plus is a space. -/
def plusToSpace (b : UInt8) : UInt8 := if b = 43 then 32 else b

/-- The decoding of `application/x-www-form-urlencoded`: pluses first, then escapes. -/
def formUrldecode (s : String) : String :=
  Text.fromUtf8Lossy (percentDecodeBytes false ((Text.utf8 s).map plusToSpace))

theorem hexDigit_plusToSpace (b : UInt8) : Text.hexDigit (plusToSpace b) = Text.hexDigit b := by
  unfold plusToSpace
  split_ifs with h
  · rw [h]
    decide
  · rfl

theorem plusToSpace_eq_percent {b : UInt8} (h : plusToSpace b = 37) : b = 37 := by
  unfold plusToSpace at h
  split_ifs at h with hb
  · exact absurd h (by decide)
  · exact h

theorem percentDecodeBytes_true (bs : List UInt8) :
    percentDecodeBytes true bs = percentDecodeBytes false (bs.map plusToSpace) := by
  fun_induction percentDecodeBytes true bs with
  | case1 => rfl
  | case2 hi lo rest h l hh hl ih =>
    simp only [List.map_cons, show plusToSpace 37 = 37 from rfl, percentDecodeBytes, hexDigit_plusToSpace, hh,
      hl, ih]
  | case3 hi lo rest hne ih =>
    rw [List.map_cons, show plusToSpace 37 = 37 from rfl, List.map_cons, List.map_cons, percentDecodeBytes]
    simp only [hexDigit_plusToSpace, ih, List.map_cons]
  | case4 b rest hne ih =>
    rw [List.map_cons, percentDecodeBytes]
    · simp [plusToSpace, ih]
    · intro hi lo rest' hb hrest
      cases rest with
      | nil => simp at hrest
      | cons x rest =>
        cases rest with
        | nil => simp at hrest
        | cons y rest => exact hne x y rest (plusToSpace_eq_percent hb) rfl

/-- **The gateway decodes a parameter as a form.** -/
theorem percentDecode_true (s : String) : percentDecode true s = formUrldecode s := by
  rw [percentDecode, percentDecodeBytes_true, formUrldecode]

/-! ### What can be read from a request -/

/-- The texts a reader may take for the query of a URL: the decoded values of the pairs whose decoded
key is `query`. -/
def urlQueries (req : Request) : List String :=
  ((req.query.map queryPairs).getD []).filterMap fun p =>
    if formUrldecode p.1 = "query" then some (formUrldecode p.2) else none

/-- A JSON object whose every `query` member is the text. -/
def ObjectWithQuery (policed : String) : Json Literal → Prop
  | .object members => ∀ m ∈ members, m.1 = "query" → m.2 = .string policed
  | _ => False

/-- **No other document can be read from the request**: every `query` parameter of its URL is the
policed text; and the body of a `POST` is a JSON object whose every `query` member is. -/
def OnlyPoliced (c : Serde Num) (policed : String) (req : Request) : Prop :=
  (∀ q ∈ urlQueries req, q = policed) ∧
  (req.method = "POST" → ∃ j, c.parse req.body = some j ∧ ObjectWithQuery policed j)

/-- The body is no array. -/
def notArray : Json Literal → Bool
  | .array _ => false
  | _ => true

/-- The condition on a request: of a `GET`, its `query` parameters agree; of a `POST`, they agree with
the body's `query`, and the body is no array. -/
def Unambiguous (c : Serde Num) (req : Request) : Prop :=
  if req.method = "POST" then
    ∀ j, c.parse req.body = some j →
      notArray j = true ∧ ∀ q ∈ urlQueries req, ((envelopeOf c j).bind (·.query)) = some q
  else ∀ q ∈ urlQueries req, ∀ q' ∈ urlQueries req, q = q'

/-! ### What was policed -/

/-- What an extracted query was read from. -/
theorem extractQuery_ok {maxBodyBytes : ℕ} {x : ExtractedQuery} (h : extractQuery c maxBodyBytes req = .ok x) :
    (req.method = "GET" ∧ ∃ raw, req.query = some raw ∧ queryParameter raw "query" = some x.query) ∨
      (req.method = "POST" ∧ ∃ j envelope, c.parse req.body = some j ∧ envelopeOf c j = some envelope ∧
        envelope.query = some x.query) := by
  unfold extractQuery at h
  split_ifs at h with hget hpost
  · simp only [bind_eq_ok, okOr_eq_ok, pure_eq_ok, Option.filter_eq_some_iff, Option.bind_eq_some_iff] at h
    obtain ⟨q, ⟨⟨raw, hraw, hq⟩, _⟩, rfl⟩ := h
    exact .inl ⟨hget, raw, hraw, hq⟩
  · simp only [bind_eq_ok, okOr_eq_ok, ensure_eq_ok, pure_eq_ok, Option.filter_eq_some_iff, fromSlice,
      Option.bind_eq_some_iff] at h
    obtain ⟨_, _, envelope, ⟨j, hj, henvelope⟩, q, ⟨hq, _⟩, rfl⟩ := h
    exact .inr ⟨hpost, j, envelope, hj, henvelope, hq⟩

/-- A request forwarded on the plain path is the request that came, and the policed text was extracted
from it. -/
theorem call_plain_ok {q : String} {fwd : Request} (h : call c st req = .ok ⟨.plain q, fwd⟩) :
    ∃ x, extractQuery c st.maxBodyBytes req = .ok x ∧ x.query = q ∧ fwd = req := by
  rcases call_ok h with ⟨-, h⟩ | ⟨-, ⟨p, caps, h⟩ | h⟩
  · exact absurd (callHandshake_ok h) (by simp)
  · exact absurd (callPersisted_ok h) (by simp)
  · obtain ⟨x, hx, hforwarded⟩ := callPlain_ok h
    simp only [Forwarded.mk.injEq, Via.plain.injEq] at hforwarded
    exact ⟨x, hx, hforwarded.1.symm, hforwarded.2⟩

/-- The first parameter with the literal key is one of those that decode to it. -/
theorem mem_urlQueries {raw q : String} (hraw : req.query = some raw) (h : queryParameter raw "query" = some q) :
    q ∈ urlQueries req := by
  obtain ⟨p, hp, hq⟩ := List.exists_of_findSome?_eq_some h
  split_ifs at hq with hkey
  rw [percentDecode_true] at hq
  simp only [urlQueries, hraw, Option.map_some, Option.getD_some, List.mem_filterMap]
  refine ⟨p, hp, ?_⟩
  rw [hkey, if_pos (by decide)]
  exact hq

/-- An object that is an envelope has one `query` member, the envelope's. -/
theorem objectWithQuery_of_envelope {j : Json Literal} {envelope : Envelope} {q : String}
    (h : envelopeOf c j = some envelope) (hq : envelope.query = some q) :
    ObjectWithQuery q j ↔ notArray j = true := by
  cases j with
  | object members =>
    simp only [ObjectWithQuery, notArray, iff_true]
    simp only [envelopeOf, bind, pure, Option.bind_eq_some_iff, Option.some.injEq] at h
    obtain ⟨query, hquery, _, _, _, _, rfl⟩ := h
    obtain rfl : query = some q := hq
    simp only [readMember, bind, Option.bind_eq_some_iff] at hquery
    obtain ⟨value, hunique, hread⟩ := hquery
    unfold uniqueMember at hunique
    split at hunique
    · simp only [Option.some.injEq] at hunique
      subst hunique
      simp [pure] at hread
    · next m hfilter =>
      simp only [Option.some.injEq] at hunique
      subst hunique
      intro m' hm' hkey
      have hmem : m' ∈ members.filter fun m => m.1 = "query" := List.mem_filter.2 ⟨hm', by simpa using hkey⟩
      rw [hfilter, List.mem_singleton] at hmem
      subst hmem
      revert hread
      cases m'.2 <;> simp [optionString]
    · simp at hunique
  | array items => simp [ObjectWithQuery, notArray]
  | null => simp [envelopeOf] at h
  | bool b => simp [envelopeOf] at h
  | number n => simp [envelopeOf] at h
  | string s => simp [envelopeOf] at h

/-- **What is forwarded is what was policed exactly when the request is unambiguous.** -/
theorem forwarded_is_policed_iff (c : Serde Num) (st : LayerState Num) (req : Request) (policed : String)
    (fwd : Request) (h : call c st req = .ok ⟨.plain policed, fwd⟩) : OnlyPoliced c policed fwd ↔ Unambiguous c req := by
  obtain ⟨x, hx, rfl, rfl⟩ := call_plain_ok h
  obtain ⟨hget, raw, hraw, hparam⟩ | ⟨hpost, j, envelope, hj, henvelope, hq⟩ := extractQuery_ok hx
  · have hmem := mem_urlQueries hraw hparam
    have hnot : fwd.method ≠ "POST" := by
      rw [hget]
      decide
    simp only [OnlyPoliced, Unambiguous, hnot, if_false, false_implies, and_true]
    constructor
    · intro hall q hq q' hq'
      rw [hall q hq, hall q' hq']
    · exact fun hall q hq => hall q hq _ hmem
  · simp only [OnlyPoliced, Unambiguous, hpost, if_true, true_implies, hj, Option.some.injEq,
      exists_eq_left', forall_eq', objectWithQuery_of_envelope henvelope hq, henvelope, Option.bind_some, hq,
      eq_comm (a := x.query)]
    exact and_comm

/-! ### Documents nobody looked at -/

/-- `{hello}`. -/
def helloText : String := "\x7bhello\x7d"

/-- Its document. -/
def helloDocument : ValidDocument :=
  .single { ty := "Query", selections := .field { name := "hello" } "String" .nil .nil } rfl

/-- A batch of one, as three fields in a row. -/
def batchText : String := "[\"\x7bhello\x7d\",null,null]"

/-- A JSON parser that reads that text. -/
def batchSerde : Serde ℕ where
  parse bytes := if bytes = Text.utf8 batchText then some (.array [.string helloText, .null, .null]) else none
  number l := some l.digits
  display := toString
  describe _ := ""

/-- An API whose schema has `hello`. -/
def helloApi : LayerState ℕ where
  apiId := "gql"
  maxBodyBytes := 1000
  parseAndValidate text := if text = helloText then .ok helloDocument else .error ["no such field"]
  sdlHash := ""

/-- `GET /gql?query=…`, with further parameters. -/
def getHello (more : String) : Request := { path := "/gql", query := some ("query=%7Bhello%7D" ++ more) }

/-- `POST /gql` of the batch. -/
def postBatch : Request := { method := "POST", path := "/gql", body := Text.utf8 batchText }

/-- A second `query` parameter, and a batch, pass with the first document policed. -/
theorem second_query_parameter_is_forwarded :
    (call batchSerde helloApi (getHello "&query=%7Bsecret%7D") =
        .ok ⟨.plain helloText, getHello "&query=%7Bsecret%7D"⟩ ∧
      ¬ OnlyPoliced batchSerde helloText (getHello "&query=%7Bsecret%7D")) ∧
    (call batchSerde helloApi postBatch = .ok ⟨.plain helloText, postBatch⟩ ∧
      ¬ OnlyPoliced batchSerde helloText postBatch) := by
  refine ⟨⟨by decide +kernel, ?_⟩, by decide +kernel, ?_⟩
  · rintro ⟨hall, -⟩
    exact absurd (hall "\x7bsecret\x7d" (by decide +kernel)) (by decide)
  · rintro ⟨-, hbody⟩
    obtain ⟨j, hj, hobject⟩ := hbody rfl
    have hparse : batchSerde.parse postBatch.body = some (.array [.string helloText, .null, .null]) := by
      simp [batchSerde, postBatch]
    rw [hparse, Option.some.injEq] at hj
    rw [← hj] at hobject
    exact hobject

theorem forwarded_is_policed_iff_hello : OnlyPoliced batchSerde helloText (getHello "&operationName=") := by
  rw [forwarded_is_policed_iff batchSerde helloApi (getHello "&operationName=") helloText
    (getHello "&operationName=") (by decide +kernel)]
  show ∀ q ∈ urlQueries (getHello "&operationName="), ∀ q' ∈ urlQueries (getHello "&operationName="), q = q'
  rw [show urlQueries (getHello "&operationName=") = [helloText] from by decide +kernel]
  simp

end G2way.GraphQl
