import G2way.Middleware.AuthModes
import G2way.Middleware.SignatureHeader

/-!
# What a signature covers

`build_signing_string` of `g2-middleware/src/hmac.rs` rebuilds "the string the
client signed: one line per (lowercased) name in `names`, joined with `\n`", and
`authenticate_hmac` verifies the client's signature of it. The client picks the
names, and the list of names is not signed.

## The model

`Request.WellFormed` is what `http::Method` and `http::Uri` hold: a method is made
of token characters, and there is no newline in a path and query. A header value
that reads as text has no newline either, and a name that a header is found under
is a token: both follow from the code (`toStr`, `headerName`).

`SameComponent` compares one signed component of two requests. `TagBinds` is what
a message authentication code is for: one tag is not the tag of two messages.

## What is proved

`signing_string_binds`: equal signing strings come from equal lists of names, and
the two requests agree in every component listed; so one signature is not accepted
for two requests that differ in a component it covers.
-/

namespace G2way.Middleware

open G2way.Core G2way.Lib G2way.Middleware.Hmac

/-- What `http::Method` and `http::Uri` hold. -/
structure Request.WellFormed (req : Request) : Prop where
  method : ∀ ch ∈ req.method.toList, isTokenChar ch = true
  target : '\n' ∉ req.pathAndQuery.toList

namespace Hmac

variable {req req' : Request} {name name' line : String}

/-! ### The characters of a line -/

theorem not_mem_of_token {l : List Char} {c : Char} (hc : isTokenChar c = false)
    (h : ∀ ch ∈ l, isTokenChar ch = true) : c ∉ l := by
  intro hmem
  have htoken := h c hmem
  rw [hc] at htoken
  cases htoken

/-- Lowering a token makes none of the characters that end one. -/
theorem not_mem_toAsciiLowercase {s : String} {c : Char} (hc : isTokenChar c = false) (hlow : c.toNat < 97)
    (h : ∀ ch ∈ s.toList, isTokenChar ch = true) : c ∉ (Text.toAsciiLowercase s).toList := by
  rw [Text.toAsciiLowercase, String.toList_ofList, List.mem_map]
  rintro ⟨ch, hch, heq⟩
  obtain rfl := Text.eq_of_toLower_eq (.inl hlow) heq
  exact not_mem_of_token hc h hch

/-- Text of a header value is on one line. -/
theorem newline_not_mem_toStr {v : HeaderValue} {s : String} (h : v.toStr = some s) : '\n' ∉ s.toList := by
  rw [HeaderValue.toStr] at h
  split_ifs at h with hall
  rw [← Option.some.inj h, String.toList_ofList, List.mem_map]
  rintro ⟨b, hb, heq⟩
  have hvisible := List.all_eq_true.1 hall b hb
  have hten : b = 10 := by
    have hlt := b.toNat_lt
    have hcode := congrArg Char.toNat heq
    rw [Text.toNat_ofNat (by omega)] at hcode
    exact UInt8.toNat_inj.1 hcode
  rw [hten] at hvisible
  exact absurd hvisible (by decide)

theorem mem_of_mem_trim {s : String} {c : Char} (h : c ∈ (Text.trim s).toList) : c ∈ s.toList := by
  rw [Text.trim, Text.trimEnd, String.toList_ofList, List.mem_reverse] at h
  have hstart := List.mem_reverse.1 ((List.dropWhile_sublist _).mem h)
  rw [Text.trimStart, String.toList_ofList] at hstart
  exact (List.dropWhile_sublist _).mem hstart

/-- The joined value is on one line. -/
theorem newline_not_mem_joinedValue {value : String} (h : joinedValue req name = some value) :
    '\n' ∉ value.toList := by
  simp only [joinedValue, Option.bind_eq_bind, Option.bind_eq_some_iff] at h
  obtain ⟨values, hvalues, h⟩ := h
  split_ifs at h
  rw [← Option.some.inj h, String.toList_intercalate]
  intro hmem
  rcases Text.mem_intercalate hmem with hsep | ⟨l, hl, hmem⟩
  · exact absurd hsep (by decide)
  · obtain ⟨s, hs, rfl⟩ := List.mem_map.1 hl
    obtain ⟨v, -, hv⟩ := Result.exists_mem_of_mapM_eq_some hvalues hs
    obtain ⟨text, htext, rfl⟩ := Option.map_eq_some_iff.1 hv
    exact newline_not_mem_toStr htext (mem_of_mem_trim hmem)

/-- A name that has a value is a token. -/
theorem token_of_joinedValue {value : String} (h : joinedValue req name = some value) :
    ∀ ch ∈ name.toList, isTokenChar ch = true := by
  simp only [joinedValue, Option.bind_eq_bind, Option.bind_eq_some_iff] at h
  obtain ⟨values, hvalues, h⟩ := h
  by_cases hname : name ≠ "" ∧ name.toList.length ≤ 65535 ∧ name.toList.all isTokenChar
  · exact List.all_eq_true.1 hname.2.2
  · rw [headerName, if_neg hname] at hvalues
    obtain rfl := Option.some.inj hvalues
    simp at h

/-! ### One line -/

/-- The two requests agree in one signed component. -/
def SameComponent (req req' : Request) (name : String) : Prop :=
  if name = "(request-target)" then
    Text.eqIgnoreAsciiCase req.method req'.method = true ∧ req.pathAndQuery = req'.pathAndQuery
  else joinedValue req name = joinedValue req' name

/-- A line is the request's target after its method, or the joined value after its name. -/
theorem signingLine_cases (h : signingLine req name = some line) :
    (name = "(request-target)" ∧
      line.toList = (Text.toAsciiLowercase req.method).toList ++ ' ' :: req.pathAndQuery.toList) ∨
    (name ≠ "(request-target)" ∧ ∃ value, joinedValue req name = some value ∧
      line.toList = name.toList ++ ':' :: ' ' :: value.toList) := by
  rw [signingLine] at h
  split_ifs at h with htarget
  · refine .inl ⟨htarget, ?_⟩
    rw [← Option.some.inj h]
    simp [String.toList_append]
  · obtain ⟨value, hvalue, rfl⟩ := Option.map_eq_some_iff.1 h
    refine .inr ⟨htarget, value, hvalue, ?_⟩
    simp [String.toList_append]

/-- A line has no newline in it, and is not empty. -/
theorem newline_not_mem_signingLine (hreq : req.WellFormed) (h : signingLine req name = some line) :
    '\n' ∉ line.toList ∧ line.toList ≠ [] := by
  obtain ⟨-, hline⟩ | ⟨-, value, hvalue, hline⟩ := signingLine_cases h
  · have hmethod := not_mem_toAsciiLowercase (c := '\n') (by decide) (by decide) hreq.method
    rw [hline]
    simp [hmethod, hreq.target]
  · have hname := not_mem_of_token (c := '\n') (by decide) (token_of_joinedValue hvalue)
    have hjoined := newline_not_mem_joinedValue hvalue
    rw [hline]
    simp [hname, hjoined]

/-- A method does not read as the name of a header: the one is followed by a space, the other
by a colon. -/
theorem method_ne_name {method name rest rest' : List Char} (hmethod : ':' ∉ method) (hname : ' ' ∉ name)
    (h : method ++ ' ' :: rest = name ++ ':' :: ' ' :: rest') : False := by
  induction method generalizing name with
  | nil =>
    cases name with
    | nil => simp at h
    | cons c name => exact hname ((List.cons.inj h).1 ▸ List.mem_cons_self)
  | cons c method ih =>
    cases name with
    | nil => exact hmethod ((List.cons.inj h).1 ▸ List.mem_cons_self)
    | cons d name =>
      exact ih (List.not_mem_of_not_mem_cons hmethod) (List.not_mem_of_not_mem_cons hname) (List.cons.inj h).2

/-- A line says which component it is of, and what that component is. -/
theorem signingLine_inj (hreq : req.WellFormed) (hreq' : req'.WellFormed) (h : signingLine req name = some line)
    (h' : signingLine req' name' = some line) : name = name' ∧ SameComponent req req' name := by
  have hcolon {r : Request} (hr : r.WellFormed) : ':' ∉ (Text.toAsciiLowercase r.method).toList :=
    not_mem_toAsciiLowercase (by decide) (by decide) hr.method
  have hspace {r : Request} (hr : r.WellFormed) : ' ' ∉ (Text.toAsciiLowercase r.method).toList :=
    not_mem_toAsciiLowercase (by decide) (by decide) hr.method
  obtain ⟨hname, hline⟩ | ⟨hname, value, hvalue, hline⟩ := signingLine_cases h
  · obtain ⟨hname', hline'⟩ | ⟨-, value', hvalue', hline'⟩ := signingLine_cases h'
    · obtain ⟨hmethod, htarget⟩ := Text.append_cons_inj_of_not_mem (hspace hreq) (hspace hreq')
        (hline.symm.trans hline')
      refine ⟨hname.trans hname'.symm, ?_⟩
      rw [SameComponent, if_pos hname]
      refine ⟨?_, String.toList_inj.1 htarget⟩
      simpa [Text.eqIgnoreAsciiCase, Text.toAsciiLowercase] using hmethod
    · have htoken := not_mem_of_token (c := ' ') (by decide) (token_of_joinedValue hvalue')
      exact (method_ne_name (hcolon hreq) htoken (hline.symm.trans hline')).elim
  · obtain ⟨-, hline'⟩ | ⟨-, value', hvalue', hline'⟩ := signingLine_cases h'
    · have htoken := not_mem_of_token (c := ' ') (by decide) (token_of_joinedValue hvalue)
      exact (method_ne_name (hcolon hreq') htoken (hline'.symm.trans hline)).elim
    · obtain ⟨hnames, hvalues⟩ := Text.append_cons_inj_of_not_mem
        (not_mem_of_token (c := ':') (by decide) (token_of_joinedValue hvalue))
        (not_mem_of_token (c := ':') (by decide) (token_of_joinedValue hvalue')) (hline.symm.trans hline')
      obtain rfl := String.toList_inj.1 hnames
      obtain rfl := String.toList_inj.1 (List.cons.inj hvalues).2
      refine ⟨rfl, ?_⟩
      rw [SameComponent, if_neg hname, hvalue, hvalue']

/-! ### The whole string -/

/-- The components two requests sign in the same lines. -/
theorem same_of_lines (hreq : req.WellFormed) (hreq' : req'.WellFormed) {names names' lines : List String}
    (h : List.Forall₂ (fun n l => signingLine req n = some l) names lines)
    (h' : List.Forall₂ (fun n l => signingLine req' n = some l) names' lines) :
    names = names' ∧ ∀ name ∈ names, SameComponent req req' name := by
  induction h generalizing names' with
  | nil =>
    cases h'
    exact ⟨rfl, fun _ hmem => absurd hmem List.not_mem_nil⟩
  | cons hline _ ih =>
    cases h' with
    | cons hline' htail' =>
      obtain ⟨rfl, hsame⟩ := signingLine_inj hreq hreq' hline hline'
      obtain ⟨rfl, hall⟩ := ih htail'
      exact ⟨rfl, List.forall_mem_cons.2 ⟨hsame, hall⟩⟩

/-- Equal signing strings sign the same names in the same order, and the requests agree in every
component listed. -/
theorem buildSigningString_inj (hreq : req.WellFormed) (hreq' : req'.WellFormed) {names names' : List String}
    {s : String} (h : buildSigningString req names = some s) (h' : buildSigningString req' names' = some s) :
    names = names' ∧ ∀ name ∈ names, SameComponent req req' name := by
  obtain ⟨lines, hlines, hs⟩ := Option.map_eq_some_iff.1 h
  obtain ⟨lines', hlines', hs'⟩ := Option.map_eq_some_iff.1 h'
  have hparts {r : Request} (hr : r.WellFormed) {ns ls : List String} (hls : ns.mapM (signingLine r) = some ls) :
      ∀ l ∈ ls.map String.toList, '\n' ∉ l ∧ l ≠ [] := by
    intro l hl
    obtain ⟨line, hline, rfl⟩ := List.mem_map.1 hl
    obtain ⟨n, -, hn⟩ := Result.exists_mem_of_mapM_eq_some hls hline
    exact newline_not_mem_signingLine hr hn
  have hjoin : ['\n'].intercalate (lines.map String.toList) = ['\n'].intercalate (lines'.map String.toList) := by
    have heq := congrArg String.toList (hs.trans hs'.symm)
    rwa [String.toList_intercalate, String.toList_intercalate] at heq
  have hmap := Text.intercalate_inj (hparts hreq hlines) (hparts hreq' hlines') hjoin
  obtain rfl := List.map_injective_iff.2 (fun _ _ => String.toList_inj.1) hmap
  exact same_of_lines hreq hreq' (Result.mapM_eq_some.1 hlines) (Result.mapM_eq_some.1 hlines')

end Hmac

namespace Auth

variable {Key Validation : Type}

/-! ### Accepted signatures -/

/-- One tag is not the tag of two messages, whatever secrets and algorithms they are
authenticated with. -/
def TagBinds (verify : HmacAlgorithm → List UInt8 → List UInt8 → List UInt8 → Bool) : Prop :=
  ∀ a a' secret secret' message message' tag,
    verify a secret message tag = true → verify a' secret' message' tag = true → message = message'

/-- The signature parameters a request carries. -/
def signatureParams (c : Crates Key Validation) (req : Request) : Option SignatureParams :=
  (req.headers.getStr "authorization").bind (parseSignatureHeader c.base64Decode)

/-- An accepted request carries a tag of its signing string. -/
theorem authenticateHmac_verified {c : Crates Key Validation} {store : Storage} {now : ℕ}
    {st : AuthState Key Validation} {algorithms : List HmacAlgorithm} {skew : Option ℕ} {req : Request}
    {ctx : SessionContext} {params : SignatureParams}
    (h : authenticateHmac c store now st algorithms skew req = .ok ctx) (hparams : signatureParams c req = some params) :
    ∃ a secret s, buildSigningString req params.headers = some s ∧
      c.hmacVerify a secret (Text.utf8 s) params.signature = true := by
  obtain ⟨keyId, -, value, params', a, s, session, data, hvalue, hparse, -, hs, -, -, hverify⟩ := authenticateHmac_ok h
  rw [signatureParams, hvalue, Option.bind_some, hparse] at hparams
  obtain rfl := Option.some.inj hparams
  exact ⟨a, Text.utf8 data.secret, s, hs, hverify⟩

/-- The signing string binds the request: equal strings come from the same names in the same
order and from requests that agree in every component named, so a signature that is accepted for
two requests covers the same components of both. -/
theorem signing_string_binds :
    (∀ (req req' : Request) (names names' : List String) (s : String), req.WellFormed → req'.WellFormed →
      buildSigningString req names = some s → buildSigningString req' names' = some s →
      names = names' ∧ ∀ name ∈ names, SameComponent req req' name) ∧
    ∀ {Key Validation : Type} (c : Crates Key Validation), TagBinds c.hmacVerify →
      ∀ (store store' : Storage) (now now' : ℕ) (st st' : AuthState Key Validation)
        (algorithms algorithms' : List HmacAlgorithm) (skew skew' : Option ℕ) (req req' : Request)
        (ctx ctx' : SessionContext) (params params' : SignatureParams), req.WellFormed → req'.WellFormed →
        authenticateHmac c store now st algorithms skew req = .ok ctx →
        authenticateHmac c store' now' st' algorithms' skew' req' = .ok ctx' →
        signatureParams c req = some params → signatureParams c req' = some params' →
        params.signature = params'.signature →
        params.headers = params'.headers ∧ ∀ name ∈ params.headers, SameComponent req req' name := by
  constructor
  · intro req req' names names' s hreq hreq' h h'
    exact buildSigningString_inj hreq hreq' h h'
  · intro Key Validation c htag store store' now now' st st' algorithms algorithms' skew skew' req req' ctx ctx'
      params params' hreq hreq' h h' hparams hparams' hsignature
    obtain ⟨a, secret, s, hs, hverify⟩ := authenticateHmac_verified h hparams
    obtain ⟨a', secret', s', hs', hverify'⟩ := authenticateHmac_verified h' hparams'
    rw [← hsignature] at hverify'
    have hbytes := htag a a' secret secret' _ _ _ hverify hverify'
    obtain rfl : s = s' := by
      have hread := congrArg Text.fromUtf8 hbytes
      rwa [Text.fromUtf8_utf8, Text.fromUtf8_utf8, Option.some.injEq] at hread
    exact buildSigningString_inj hreq hreq' hs hs'

/-! ### One signature on two requests -/

/-- The session of the signing key `billing`. -/
def billing : KeySession := { hmac := some ⟨"s3cr3t"⟩ }

/-- Its record. -/
def billingRecord : String := "\x7b\"hmac\":\x7b\"secret\":\"s3cr3t\"\x7d\x7d"

/-- What the two requests sign. -/
def signedText : String := "get /orders?page=2\ndate: Tue, 07 Jun 2022 20:51:35 GMT"

/-- Its HMAC under SHA-256 and the secret of `billing`. -/
def signedTag : List UInt8 :=
  [158, 199, 213, 17, 83, 212, 94, 80, 123, 51, 228, 8, 87, 150, 109, 196, 175, 123, 245, 200, 182, 95, 11, 14, 131, 8, 99,
    161, 19, 158, 55, 229]

/-- Crates that know that tag, and the digest of that key id. -/
def signingCrates : Crates Unit Unit :=
  { sampleCrates with
    hashKey := fun s =>
      if s = "hmac:billing" then "c8775e81334209856c501311be8668c268ef975a202971a754111b9a9143a5de"
      else "no digest of " ++ s
    hmacVerify := fun a secret message tag =>
      a = .hmacSha256 ∧ secret = Text.utf8 "s3cr3t" ∧ message = Text.utf8 signedText ∧ tag = signedTag
    base64Decode := Base64.decode
    sessionFromJson := fun text => if text = billingRecord then some billing else none }

/-- Storage where the session of `billing` is the only record. -/
def billingStore : Storage := fun key =>
  if key = sessionStorageKey "default" (signingCrates.hashKey "hmac:billing") then .ok (some billingRecord)
  else .ok none

/-- An API that takes signatures. -/
def signedApi : AuthState Unit Unit := ⟨"orders", "default", .hmac [.hmacSha256] none⟩

/-- The signature parameters as they are sent. -/
def signedValue : String :=
  "Signature keyId=\"billing\",algorithm=\"hmac-sha256\",headers=\"(request-target) date\"," ++
    "signature=\"nsfVEVPUXlB7M+QIV5ZtxK979ci2XwsOgwhjoROeN+U=\""

/-- A request that carries them, with one more header. -/
def signedRequest (method : String) (extra : String × HeaderValue) : Request :=
  { method, path := "/orders", query := some "page=2",
    headers := [("authorization", headerValue signedValue), ("date", headerValue "Tue, 07 Jun 2022 20:51:35 GMT"), extra] }

theorem tagBinds_signingCrates : TagBinds signingCrates.hmacVerify := by
  intro a a' secret secret' message message' tag h h'
  simp only [signingCrates, decide_eq_true_eq] at h h'
  rw [h.2.2.1, h'.2.2.1]

theorem wellFormed_signedRequest (method : String) (extra : String × HeaderValue)
    (hmethod : ∀ ch ∈ method.toList, isTokenChar ch = true) : (signedRequest method extra).WellFormed := by
  refine ⟨hmethod, ?_⟩
  rw [show (signedRequest method extra).pathAndQuery = "/orders?page=2" from rfl]
  decide

theorem parse_signedValue : parseSignatureHeader Base64.decode signedValue =
    some ⟨"billing", "hmac-sha256", ["(request-target)", "date"], signedTag⟩ := by
  rw [parse_eq_some_iff]
  have hlist : signedValue.toList = _ :=
    (String.toList_append ..).trans (congrArg₂ (· ++ ·) String.toList_ofList String.toList_ofList)
  refine ⟨_, _, false, ⟨"Signature ".toList, ?_, by decide⟩,
    @Pairs.cons "keyId" "billing" [] _ _ _ (by decide) (by decide) blank_nil
      (@Pairs.cons "algorithm" "hmac-sha256" [] _ _ _ (by decide) (by decide) blank_nil
        (@Pairs.cons "headers" "(request-target) date" [] _ _ _ (by decide) (by decide) blank_nil
          (@Pairs.last "signature" "nsfVEVPUXlB7M+QIV5ZtxK979ci2XwsOgwhjoROeN+U=" [] (by decide) (by decide) blank_nil))),
    ?_⟩
  · rw [Text.trim_eq_self (by rw [hlist]; decide +kernel) (by rw [hlist]; decide +kernel), hlist]
    decide +kernel
  · refine ⟨⟨by decide +kernel, by decide⟩, ⟨by decide +kernel, by decide⟩,
      .inr ⟨"(request-target) date", by decide +kernel, by decide +kernel, by decide⟩,
      "nsfVEVPUXlB7M+QIV5ZtxK979ci2XwsOgwhjoROeN+U=", by decide +kernel,
      "nsfVEVPUXlB7M+QIV5ZtxK979ci2XwsOgwhjoROeN+U=", unescapes_of_not_mem (by decide +kernel), by decide +kernel⟩

theorem signatureParams_signedRequest (method : String) (extra : String × HeaderValue) :
    signatureParams signingCrates (signedRequest method extra) =
      some ⟨"billing", "hmac-sha256", ["(request-target)", "date"], signedTag⟩ := by
  have hvalue : (signedRequest method extra).headers.getStr "authorization" = some signedValue := by
    have hget : (signedRequest method extra).headers.get "authorization" = some (headerValue signedValue) := by
      simp [signedRequest, HeaderMap.get]
    rw [HeaderMap.getStr, hget, Option.bind_some]
    refine toStr_headerValue ?_
    have hlist : signedValue.toList = _ := String.toList_append ..
    rw [hlist, List.forall_mem_append]
    exact ⟨Text.forall_mem_ofList (by decide +kernel), Text.forall_mem_ofList (by decide +kernel)⟩
  rw [signatureParams, hvalue, Option.bind_some, show signingCrates.base64Decode = Base64.decode from rfl]
  exact parse_signedValue

theorem authenticateHmac_signedRequest (now : ℕ) (method : String) (extra : String × HeaderValue)
    (hs : buildSigningString (signedRequest method extra) ["(request-target)", "date"] = some signedText) :
    authenticateHmac signingCrates billingStore now signedApi [.hmacSha256] none (signedRequest method extra) =
      .ok ⟨billing, signingCrates.hashKey "hmac:billing"⟩ := by
  have hparams := signatureParams_signedRequest method extra
  rw [signatureParams] at hparams
  rw [authenticateHmac, hparams]
  have halgorithm : [HmacAlgorithm.hmacSha256].find? (fun a => Text.eqIgnoreAsciiCase a.asStr "hmac-sha256") =
      some .hmacSha256 := by decide
  have hkey : "hmac:" ++ "billing" = "hmac:billing" := by decide
  have hsession : lookupSession signingCrates billingStore "default" (signingCrates.hashKey "hmac:billing") =
      .ok (some billing) := by
    refine lookupSession_eq_some.2 ⟨billingRecord, if_pos rfl, ?_⟩
    simp [signingCrates]
  have hverified : signingCrates.hmacVerify .hmacSha256 (Text.utf8 "s3cr3t") (Text.utf8 signedText) signedTag = true := by
    simp [signingCrates]
  simp only [Result.okOr, Result.ok_bind, halgorithm, checkSkew, hs, signedApi, hkey, hsession, Option.bind_some, billing,
    Option.elim_some, hverified]
  rfl

/-- One signature on two requests that differ in the case of the method and in a header that is not
signed. -/
theorem signing_string_binds_orders :
    let first := signedRequest "GET" ("accept", headerValue "*/*")
    let second := signedRequest "Get" ("accept", headerValue "a/b")
    (∃ ctx ctx', authenticateHmac signingCrates billingStore 0 signedApi [.hmacSha256] none first = .ok ctx ∧
      authenticateHmac signingCrates billingStore 9 signedApi [.hmacSha256] none second = .ok ctx') ∧
    (∃ s, buildSigningString first ["Date"] = some s ∧ buildSigningString second ["Date"] = some s) ∧
    SameComponent first second "(request-target)" ∧ SameComponent first second "Date" := by
  intro first second
  have hreq : first.WellFormed := wellFormed_signedRequest "GET" _ (List.all_eq_true.1 (by decide))
  have hreq' : second.WellFormed := wellFormed_signedRequest "Get" _ (List.all_eq_true.1 (by decide))
  have hctx := authenticateHmac_signedRequest 0 "GET" ("accept", headerValue "*/*") (by decide +kernel)
  have hctx' := authenticateHmac_signedRequest 9 "Get" ("accept", headerValue "a/b") (by decide +kernel)
  have haccepted := signing_string_binds.2 signingCrates tagBinds_signingCrates billingStore billingStore 0 9 signedApi
    signedApi [.hmacSha256] [.hmacSha256] none none first second _ _ _ _ hreq hreq' hctx hctx'
    (signatureParams_signedRequest _ _) (signatureParams_signedRequest _ _) rfl
  have hs : buildSigningString first ["Date"] = some "Date: Tue, 07 Jun 2022 20:51:35 GMT" := by decide +kernel
  have hs' : buildSigningString second ["Date"] = some "Date: Tue, 07 Jun 2022 20:51:35 GMT" := by decide +kernel
  have hstring := signing_string_binds.1 first second ["Date"] ["Date"] _ hreq hreq' hs hs'
  exact ⟨⟨_, _, hctx, hctx'⟩, ⟨_, hs, hs'⟩, haccepted.2 _ List.mem_cons_self, hstring.2 _ List.mem_cons_self⟩

end Auth

end G2way.Middleware
