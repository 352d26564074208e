import G2way.Middleware.Cache
import G2way.Middleware.Cors
import G2way.Middleware.RateLimit

/-!
# Endpoint rules

The endpoint rules of `g2-core/src/endpoints.rs`, and what is compiled from them: the path lists
of `path_policy.rs`, the mocks of `mock.rs` and the endpoint limits of `rate_limit.rs`. "All
patterns are regexes searched (unanchored) against the full client request path", and "a rule with
an empty `methods` list applies to every method".

## The model

A rule of each kind has a regex and a list of methods, and is compiled by the same steps
(`compileRule`); only the messages differ. What the `regex` crate makes of a pattern is a parameter.
The method of a request is compared as it is, and those of a rule in upper case.

## What is proved

A rule that is accepted compiles, and the compiled rule matches the requests that the rule
`Covers`. So the lists are judged as configured (`path_lists_judged`): "an ignored path does not
bypass the block list". And of several mocks or limits, the first one that covers a request
decides (`first_mock_answers`, `first_limit_counts`).
-/

namespace G2way.Middleware.PathRules

open G2way.Core G2way.Lib G2way.Lib.Result G2way.Middleware.RateLimit

/-! ### Rules -/

/-- `Regex::new`: the paths the pattern is found in, or the message of the crate. -/
abbrev Regexes := String → Except String (String → Bool)

/-- `PathRule`. -/
structure PathRule where
  pattern : String
  /-- The methods it applies to; the empty list is every method. -/
  methods : List String := []
  deriving DecidableEq, Repr

/-- `MockResponse`. -/
structure MockResponse extends PathRule where
  status : ℕ := 200
  body : String := ""
  /-- The headers, a map by name. -/
  headers : List (String × String) := []
  deriving DecidableEq, Repr

section Validate

variable (regexes : Regexes)

/-- `validate_pattern`. -/
def validatePattern (pattern list : String) (index : ℕ) : Except String Unit := do
  let _ ← (regexes pattern).mapError ("`" ++ list ++ "[" ++ toString index ++ "].pattern` is not a valid regex: " ++ ·)

/-- `PathRule::validate`. -/
def PathRule.validate (rule : PathRule) (list : String) (index : ℕ) : Except String Unit := do
  validatePattern regexes rule.pattern list index
  validateMethods rule.methods list index

/-- `MockResponse::validate`. -/
def MockResponse.validate (rule : MockResponse) (index : ℕ) : Except String Unit := do
  let list := "mock_responses"
  let field (name : String) := "`" ++ list ++ "[" ++ toString index ++ "]." ++ name ++ "`"
  validatePattern regexes rule.pattern list index
  validateMethods rule.methods list index
  ensure ((Cache.statusFromU16 rule.status).isSome && rule.status ≤ 599)
    (field "status" ++ " is not a valid HTTP status code: " ++ toString rule.status)
  rule.headers.forM fun (name, value) => do
    ensure (headerName name).isSome (field "headers" ++ " name is not a valid header name: `" ++ name ++ "`")
    ensure (!hopByHop.any (Text.eqIgnoreAsciiCase · name))
      (field "headers" ++ " must not set hop-by-hop header `" ++ name ++ "`")
    ensure (headerValueFromStr value).isSome
      (field "headers" ++ " value for `" ++ name ++ "` is not a valid header value")

/-- The checks of a list of rules. -/
def validateList (rules : List PathRule) (list : String) : Except String Unit :=
  rules.zipIdx.forM fun (rule, index) => rule.validate regexes list index

/-- The checks of the mocks. -/
def validateMocks (rules : List MockResponse) : Except String Unit :=
  rules.zipIdx.forM fun (rule, index) => rule.validate regexes index

end Validate

/-! ### Compiled rules -/

/-- `CompiledRule`. -/
structure CompiledRule where
  /-- Whether the rule's regex is found in a path. -/
  regex : String → Bool
  methods : List String

/-- `matches`. -/
def CompiledRule.matches (rule : CompiledRule) (method path : String) : Bool :=
  (rule.methods.isEmpty || rule.methods.contains method) && rule.regex path

/-- `CompiledMock`. -/
structure CompiledMock extends CompiledRule where
  status : ℕ
  headers : HeaderMap
  body : List UInt8

section Compile

variable (regexes : Regexes)

/-- The regex and the methods of a rule of some kind. -/
def compileRule (kind apiId : String) (rule : PathRule) : Except InvalidApiDefinition CompiledRule := do
  let regex ← (regexes rule.pattern).mapError fun e =>
    (⟨apiId, "invalid " ++ kind ++ " regex `" ++ rule.pattern ++ "`: " ++ e⟩ : InvalidApiDefinition)
  let methods ← rule.methods.mapM fun m =>
    okOr (Cors.methodFromBytes (Text.utf8 (Text.toAsciiUppercase m)))
      ⟨apiId, "invalid " ++ kind ++ " method `" ++ m ++ "`"⟩
  return ⟨regex, methods⟩

/-- `CompiledRule::compile`. -/
def CompiledRule.compile (apiId : String) (rule : PathRule) : Except InvalidApiDefinition CompiledRule :=
  compileRule regexes "path rule" apiId rule

/-- A header of a mock. -/
def compileHeader (apiId : String) (header : String × String) : Except InvalidApiDefinition (String × HeaderValue) := do
  let name ← okOr (headerName header.1) ⟨apiId, "invalid mock header name `" ++ header.1 ++ "`"⟩
  let value ← okOr (headerValueFromStr header.2) ⟨apiId, "invalid mock header value for `" ++ header.1 ++ "`"⟩
  return (name, value)

/-- `CompiledMock::compile`. -/
def CompiledMock.compile (apiId : String) (rule : MockResponse) : Except InvalidApiDefinition CompiledMock := do
  let compiled ← compileRule regexes "mock" apiId rule.toPathRule
  let status ← okOr (Cache.statusFromU16 rule.status) ⟨apiId, "invalid mock status `" ++ toString rule.status ++ "`"⟩
  let headers ← rule.headers.mapM (compileHeader apiId)
  return ⟨compiled, status, headers, Text.utf8 rule.body⟩

/-- An endpoint limit as a rule. -/
def limitRule (limit : EndpointRateLimit) : PathRule := ⟨limit.pattern, limit.methods⟩

/-- An endpoint limit, by its place in the list. -/
def compileLimit (apiId orgId scope : String) (entry : EndpointRateLimit × ℕ) :
    Except InvalidApiDefinition CompiledEndpointLimit := do
  let rule := entry.1
  let compiled ← compileRule regexes "endpoint rate-limit" apiId (limitRule rule)
  return {
    regex := compiled.regex
    methods := compiled.methods
    requests := rule.rate.requests
    window := rule.rate.perSeconds * 1000
    storageKey := endpointRateLimitStorageKey orgId scope entry.2 }

/-- `EndpointLimits::from_config`. -/
def endpointLimits (rules : List EndpointRateLimit) (apiId orgId scope : String) :
    Except InvalidApiDefinition (Option (List CompiledEndpointLimit)) :=
  if rules.isEmpty then .ok none else some <$> rules.zipIdx.mapM (compileLimit regexes apiId orgId scope)

end Compile

/-! ### Path lists -/

/-- `FORBIDDEN_PATH_MSG`: "which list rejected a request must not leak to the caller". -/
def forbiddenPath : Rejection := ⟨403, "requested endpoint is forbidden", none⟩

/-- `PolicyState`. -/
structure PolicyState where
  allow : List CompiledRule
  block : List CompiledRule
  ignored : List CompiledRule

/-- `any_match`. -/
def anyMatch (rules : List CompiledRule) (method path : String) : Bool := rules.any fun r => r.matches method path

/-- `PathPolicyLayer::from_config`. -/
def PolicyState.fromConfig (regexes : Regexes) (allow block ignored : List PathRule) (apiId : String) :
    Except InvalidApiDefinition (Option PolicyState) :=
  if allow.isEmpty && block.isEmpty && ignored.isEmpty then .ok none
  else do
    let allow ← allow.mapM (CompiledRule.compile regexes apiId)
    let block ← block.mapM (CompiledRule.compile regexes apiId)
    let ignored ← ignored.mapM (CompiledRule.compile regexes apiId)
    return some ⟨allow, block, ignored⟩

/-- The request with `AuthBypass` stamped on it. -/
def bypassed (req : Request) : Request := { req with extensions := { req.extensions with authBypass := true } }

/-- `PathPolicy::call`: the request passed to the layers below, or the rejection. -/
def PolicyState.call (st : PolicyState) (req : Request) : Except Rejection Request :=
  if anyMatch st.block req.method req.path || (!st.allow.isEmpty && !anyMatch st.allow req.method req.path) then
    .error forbiddenPath
  else if anyMatch st.ignored req.method req.path then .ok (bypassed req)
  else .ok req

/-- The layer of an API, if it has one. -/
def callPolicy (st : Option PolicyState) (req : Request) : Except Rejection Request :=
  match st with
  | some st => st.call req
  | none => .ok req

/-! ### Mocks -/

/-- `CompiledMock::response`. -/
def CompiledMock.response (mock : CompiledMock) : Cors.Response :=
  ⟨mock.status, mock.headers.foldl (fun h p => h.insert p.1 p.2) [], mock.body⟩

/-- `MockResponseLayer::from_config`. -/
def mockRules (regexes : Regexes) (rules : List MockResponse) (apiId : String) :
    Except InvalidApiDefinition (List CompiledMock) :=
  rules.mapM (CompiledMock.compile regexes apiId)

/-- `Mock::call`: the answer, if the gateway answers by itself. -/
def callMock (rules : List CompiledMock) (req : Request) : Option Cors.Response :=
  (rules.find? fun r => r.matches req.method req.path).map CompiledMock.response

/-! ### The specification -/

/-- A rule is about a request. -/
def Covers (regexes : Regexes) (rule : PathRule) (req : Request) : Prop :=
  (rule.methods = [] ∨ ∃ m ∈ rule.methods, Text.toAsciiUppercase m = req.method) ∧
    ∃ found, regexes rule.pattern = .ok found ∧ found req.path = true

/-- Some rule of a list is. -/
def Listed (regexes : Regexes) (rules : List PathRule) (req : Request) : Prop := ∃ rule ∈ rules, Covers regexes rule req

/-- The value of a header of a mock: of several spellings of a name, the last one counts. -/
def MockResponse.configured (rule : MockResponse) (name : String) : Option HeaderValue :=
  ((rule.headers.filter fun p => Text.toAsciiLowercase p.1 = name).map fun p => headerValue p.2).getLast?

/-! ### Accepted rules compile -/

section

variable {regexes : Regexes} {rule : PathRule} {list apiId : String} {index : ℕ}

theorem validatePattern_eq_ok {pattern : String} {u : Unit} :
    validatePattern regexes pattern list index = .ok u ↔ ∃ found, regexes pattern = .ok found := by
  simp [validatePattern]

theorem validateMethods_eq_ok {methods : List String} {u : Unit} :
    validateMethods methods list index = .ok u ↔
      ∀ m ∈ methods, transformMethods.any (Text.eqIgnoreAsciiCase · m) = true := by
  simp only [validateMethods, List.forM_eq_forM, forM_eq_ok, ensure_eq_ok]

/-- A rule as it is accepted: its pattern is a regex, and its methods are standard. -/
def Accepted (regexes : Regexes) (rule : PathRule) : Prop :=
  (∃ found, regexes rule.pattern = .ok found) ∧
    ∀ m ∈ rule.methods, transformMethods.any (Text.eqIgnoreAsciiCase · m) = true

theorem PathRule.validate_eq_ok : rule.validate regexes list index = .ok () ↔ Accepted regexes rule := by
  simp only [PathRule.validate, bind_eq_ok, validatePattern_eq_ok, validateMethods_eq_ok, exists_const, Accepted]

theorem accepted_of_validateList {rules : List PathRule} (h : validateList regexes rules list = .ok ()) :
    ∀ rule ∈ rules, Accepted regexes rule := by
  simp only [validateList, List.forM_eq_forM, forM_eq_ok] at h
  intro rule hrule
  obtain ⟨i, hi⟩ := List.mem_iff_getElem?.1 hrule
  exact PathRule.validate_eq_ok.1 (h (rule, i) (List.mem_zipIdx_iff_getElem?.2 hi))

/-- **An accepted rule compiles**, and the compiled rule matches what the rule covers. -/
theorem exists_compileRule (kind apiId : String) (h : Accepted regexes rule) :
    ∃ compiled, compileRule regexes kind apiId rule = .ok compiled := by
  obtain ⟨⟨found, hfound⟩, hmethods⟩ := h
  refine ⟨⟨found, rule.methods.map Text.toAsciiUppercase⟩, ?_⟩
  simp only [compileRule, hfound, bind_eq_ok, mapError_eq_ok, pure_eq_ok]
  refine ⟨found, rfl, _, ?_, rfl⟩
  rw [mapM_eq_ok, List.forall₂_map_right_iff, List.forall₂_same]
  intro m hm
  exact okOr_eq_ok.2 (Cors.methodFromBytes_standard _ (toAsciiUppercase_mem (hmethods m hm)))

/-- A method is compiled to its own bytes in upper case. -/
theorem eq_of_methodFromBytes {m name : String} (h : Cors.methodFromBytes (Text.utf8 m) = some name) : name = m :=
  (Text.utf8_injective (Cors.methodFromBytes_eq_some h)).symm

theorem matches_compileRule {kind : String} {compiled : CompiledRule}
    (h : compileRule regexes kind apiId rule = .ok compiled) (req : Request) :
    compiled.matches req.method req.path = true ↔ Covers regexes rule req := by
  simp only [compileRule, bind_eq_ok, mapError_eq_ok, pure_eq_ok] at h
  obtain ⟨found, hfound, methods, hmethods, rfl⟩ := h
  have hnil : methods = [] ↔ rule.methods = [] := by
    have hlength := (mapM_eq_ok.1 hmethods).length_eq
    rw [← List.length_eq_zero_iff, ← hlength, List.length_eq_zero_iff]
  have hmem : req.method ∈ methods ↔ ∃ m ∈ rule.methods, Text.toAsciiUppercase m = req.method := by
    rw [mem_mapM hmethods]
    refine exists_congr fun m => and_congr_right fun hm => ?_
    rw [okOr_eq_ok]
    constructor
    · intro hname
      exact (eq_of_methodFromBytes hname).symm
    · intro hname
      obtain ⟨name, hround⟩ := exists_mapM_eq_ok.1 ⟨methods, hmethods⟩ m hm
      rw [okOr_eq_ok] at hround
      rw [← hname, hround, eq_of_methodFromBytes hround]
  simp only [CompiledRule.matches, Bool.and_eq_true, Bool.or_eq_true, List.isEmpty_iff, List.contains_iff_mem, hnil, hmem,
    Covers, hfound, Except.ok.injEq, exists_eq_left']

end

/-! ### Path lists are judged as configured -/

section PathLists

variable {regexes : Regexes} {rules : List PathRule} {apiId : String}

theorem exists_compileList (apiId : String) (hrules : ∀ rule ∈ rules, Accepted regexes rule) :
    ∃ compiled, rules.mapM (CompiledRule.compile regexes apiId) = .ok compiled :=
  exists_mapM_eq_ok.2 fun rule hrule => exists_compileRule _ _ (hrules rule hrule)

theorem anyMatch_iff {compiled : List CompiledRule} (h : rules.mapM (CompiledRule.compile regexes apiId) = .ok compiled)
    (req : Request) : anyMatch compiled req.method req.path = true ↔ Listed regexes rules req := by
  simp only [anyMatch, List.any_eq_true, mem_mapM h, Listed]
  constructor
  · rintro ⟨r, ⟨rule, hrule, hr⟩, hmatches⟩
    exact ⟨rule, hrule, (matches_compileRule hr req).1 hmatches⟩
  · rintro ⟨rule, hrule, hcovers⟩
    obtain ⟨r, hr⟩ := exists_mapM_eq_ok.1 ⟨compiled, h⟩ rule hrule
    exact ⟨r, ⟨rule, hrule, hr⟩, (matches_compileRule hr req).2 hcovers⟩

theorem isEmpty_compiled {compiled : List CompiledRule}
    (h : rules.mapM (CompiledRule.compile regexes apiId) = .ok compiled) : compiled.isEmpty = rules.isEmpty := by
  have hlength := (mapM_eq_ok.1 h).length_eq
  rw [Bool.eq_iff_iff, List.isEmpty_iff_length_eq_zero, List.isEmpty_iff_length_eq_zero, hlength]

/-- The requests that path lists reject. -/
def Rejects (regexes : Regexes) (allow block : List PathRule) (req : Request) : Prop :=
  Listed regexes block req ∨ (allow ≠ [] ∧ ¬ Listed regexes allow req)

/-- What the layer of some path lists makes of each request. -/
structure Judges (regexes : Regexes) (allow block ignored : List PathRule) (call : Request → Except Rejection Request) :
    Prop where
  rejects : ∀ req, call req = .error forbiddenPath ↔ Rejects regexes allow block req
  ignores : ∀ req, ¬ Rejects regexes allow block req → Listed regexes ignored req → call req = .ok (bypassed req)
  passes : ∀ req, ¬ Rejects regexes allow block req → ¬ Listed regexes ignored req → call req = .ok req

theorem judges_callPolicy {allow block ignored : List PathRule} {st : Option PolicyState}
    (h : PolicyState.fromConfig regexes allow block ignored apiId = .ok st) :
    Judges regexes allow block ignored (callPolicy st) := by
  rw [PolicyState.fromConfig] at h
  split_ifs at h with hempty
  · simp only [Bool.and_eq_true, List.isEmpty_iff] at hempty
    obtain ⟨⟨rfl, rfl⟩, rfl⟩ := hempty
    obtain rfl := Except.ok.inj h
    have hnone (req : Request) : ¬ Rejects regexes [] [] req := by simp [Rejects, Listed]
    refine ⟨fun req => ⟨fun hcall => ?_, fun hrejects => absurd hrejects (hnone req)⟩, fun req _ hlisted => ?_,
      fun req _ _ => rfl⟩
    · cases hcall
    · simp [Listed] at hlisted
  · simp only [bind_eq_ok, pure_eq_ok] at h
    obtain ⟨allow', hallow, block', hblock, ignored', hignored, rfl⟩ := h
    have hrejects (req : Request) : (anyMatch block' req.method req.path || (!allow'.isEmpty &&
        !anyMatch allow' req.method req.path)) = true ↔ Rejects regexes allow block req := by
      rw [Bool.or_eq_true, anyMatch_iff hblock, Bool.and_eq_true, Bool.not_eq_true', Bool.not_eq_true',
        ← Bool.not_eq_true, ← Bool.not_eq_true, anyMatch_iff hallow, isEmpty_compiled hallow, List.isEmpty_iff, Rejects]
    constructor
    case rejects =>
      intro req
      rw [callPolicy, PolicyState.call]
      split_ifs with hmatch hignore
      · exact iff_of_true rfl ((hrejects req).1 hmatch)
      · exact iff_of_false (by simp) (mt (hrejects req).2 hmatch)
      · exact iff_of_false (by simp) (mt (hrejects req).2 hmatch)
    case ignores =>
      intro req hnot hlisted
      rw [callPolicy, PolicyState.call, if_neg (mt (hrejects req).1 hnot),
        if_pos ((anyMatch_iff hignored req).2 hlisted)]
    case passes =>
      intro req hnot hlisted
      rw [callPolicy, PolicyState.call, if_neg (mt (hrejects req).1 hnot),
        if_neg (mt (anyMatch_iff hignored req).1 hlisted)]

theorem exists_fromConfig (apiId : String) {allow block ignored : List PathRule}
    (hallow : ∀ rule ∈ allow, Accepted regexes rule) (hblock : ∀ rule ∈ block, Accepted regexes rule)
    (hignored : ∀ rule ∈ ignored, Accepted regexes rule) :
    ∃ st, PolicyState.fromConfig regexes allow block ignored apiId = .ok st := by
  rw [PolicyState.fromConfig]
  split_ifs
  · exact ⟨none, rfl⟩
  · obtain ⟨allow', hallow'⟩ := exists_compileList apiId hallow
    obtain ⟨block', hblock'⟩ := exists_compileList apiId hblock
    obtain ⟨ignored', hignored'⟩ := exists_compileList apiId hignored
    refine ⟨some ⟨allow', block', ignored'⟩, ?_⟩
    simp only [hallow', hblock', hignored', ok_bind]
    rfl

/-- **Path lists are judged as configured.** Lists that validation accepts compile, and every request is rejected if a
block rule covers it, or if there are allow rules and none does; of the others, those that an ignore rule covers go on
without authentication. -/
theorem path_lists_judged {allow block ignored : List PathRule} (apiId : String)
    (hallow : validateList regexes allow "allow_paths" = .ok ())
    (hblock : validateList regexes block "block_paths" = .ok ())
    (hignored : validateList regexes ignored "ignore_auth_paths" = .ok ()) :
    ∃ st, PolicyState.fromConfig regexes allow block ignored apiId = .ok st ∧
      Judges regexes allow block ignored (callPolicy st) := by
  obtain ⟨st, hst⟩ := exists_fromConfig apiId (accepted_of_validateList hallow)
    (accepted_of_validateList hblock) (accepted_of_validateList hignored)
  exact ⟨st, hst, judges_callPolicy hst⟩

end PathLists

/-! ### The first rule decides -/

section First

variable {ε ρ κ : Type*} {regexes : Regexes} {apiId : String}

theorem compileLimit_eq_ok {orgId scope : String} {entry : EndpointRateLimit × ℕ} {compiled : CompiledEndpointLimit}
    (h : compileLimit regexes apiId orgId scope entry = .ok compiled) :
    (∀ req : Request, compiled.matches req.method req.path = true ↔ Covers regexes (limitRule entry.1) req) ∧
      compiled.requests = entry.1.rate.requests ∧ compiled.window = entry.1.rate.perSeconds * 1000 ∧
      compiled.storageKey = endpointRateLimitStorageKey orgId scope entry.2 := by
  simp only [compileLimit, bind_eq_ok, pure_eq_ok] at h
  obtain ⟨rule, hrule, rfl⟩ := h
  exact ⟨fun req => matches_compileRule hrule req, rfl, rfl, rfl⟩

theorem compileMock_eq_ok {rule : MockResponse} {compiled : CompiledMock}
    (h : CompiledMock.compile regexes apiId rule = .ok compiled) :
    (∀ req : Request, compiled.matches req.method req.path = true ↔ Covers regexes rule.toPathRule req) ∧
      compiled.status = rule.status ∧ rule.headers.mapM (compileHeader apiId) = .ok compiled.headers ∧
      compiled.body = Text.utf8 rule.body := by
  simp only [CompiledMock.compile, bind_eq_ok, okOr_eq_ok, pure_eq_ok] at h
  obtain ⟨r, hr, status, hstatus, headers, hheaders, rfl⟩ := h
  refine ⟨fun req => matches_compileRule hr req, ?_, hheaders, rfl⟩
  simp only [Cache.statusFromU16, Option.ite_none_right_eq_some, Option.some.injEq] at hstatus
  exact hstatus.2.symm

theorem compileHeader_eq_ok {header : String × String} {entry : String × HeaderValue}
    (h : compileHeader apiId header = .ok entry) :
    entry = (Text.toAsciiLowercase header.1, headerValue header.2) := by
  simp only [compileHeader, bind_eq_ok, okOr_eq_ok, pure_eq_ok] at h
  obtain ⟨name, hname, value, hvalue, rfl⟩ := h
  simp only [headerName, Option.ite_none_right_eq_some, Option.some.injEq] at hname
  rw [← hname.2, headerValueFromBytes_eq_some hvalue]

/-- The headers of a mock are compiled one by one. -/
theorem compiledHeaders_eq {headers : List (String × String)} {compiled : HeaderMap}
    (h : headers.mapM (compileHeader apiId) = .ok compiled) :
    compiled = headers.map fun p => (Text.toAsciiLowercase p.1, headerValue p.2) := by
  induction mapM_eq_ok.1 h with
  | nil => rfl
  | cons hp htail ih => rw [compileHeader_eq_ok hp, ih (mapM_eq_ok.2 htail), List.map_cons]

/-- The value of a header that the gateway answers with. -/
theorem getAll_response {rule : MockResponse} {compiled : CompiledMock}
    (h : rule.headers.mapM (compileHeader apiId) = .ok compiled.headers) (name : String) :
    compiled.response.headers.getAll name = (rule.configured name).toList := by
  rw [CompiledMock.response, HeaderMap.getAll_foldl_insert, compiledHeaders_eq h]
  have hvalues : HeaderMap.getAll (rule.headers.map fun p => (Text.toAsciiLowercase p.1, headerValue p.2)) name =
      (rule.headers.filter fun p => Text.toAsciiLowercase p.1 = name).map fun p => headerValue p.2 := by
    rw [HeaderMap.getAll, List.filter_map, List.map_map]
    rfl
  rw [hvalues, MockResponse.configured]
  cases ((rule.headers.filter fun p => Text.toAsciiLowercase p.1 = name).map fun p => headerValue p.2).getLast? with
  | none => rfl
  | some value => rfl

/-- An accepted mock compiles. -/
theorem exists_compileMock (apiId : String) {rule : MockResponse} {index : ℕ} (h : rule.validate regexes index = .ok ()) :
    ∃ compiled, CompiledMock.compile regexes apiId rule = .ok compiled := by
  simp only [MockResponse.validate, bind_eq_ok, validatePattern_eq_ok, validateMethods_eq_ok, ensure_eq_ok,
    List.forM_eq_forM, forM_eq_ok, Bool.and_eq_true] at h
  obtain ⟨_, hpattern, _, hmethods, _, ⟨hstatus, -⟩, hheaders⟩ := h
  have haccepted : Accepted regexes rule.toPathRule := ⟨hpattern, hmethods⟩
  obtain ⟨compiled, hcompiled⟩ := exists_compileRule "mock" apiId haccepted
  obtain ⟨status, hstatus⟩ := Option.isSome_iff_exists.1 hstatus
  have hcompiles : ∀ p ∈ rule.headers, ∃ header, compileHeader apiId p = .ok header := by
    intro p hp
    obtain ⟨_, hname, _, -, hvalue⟩ := hheaders p hp
    obtain ⟨name, hname⟩ := Option.isSome_iff_exists.1 hname
    obtain ⟨value, hvalue⟩ := Option.isSome_iff_exists.1 hvalue
    refine ⟨(name, value), ?_⟩
    simp only [compileHeader, hname, hvalue, okOr, ok_bind]
    rfl
  obtain ⟨headers, hcompiledHeaders⟩ := exists_mapM_eq_ok.2 hcompiles
  refine ⟨⟨compiled, status, headers, Text.utf8 rule.body⟩, ?_⟩
  simp only [CompiledMock.compile, hcompiled, hstatus, hcompiledHeaders, okOr, ok_bind]
  rfl

/-- What a list of mocks makes of a request: the answer is that of the first rule that covers it, as configured, and
there is none if no rule does. -/
structure AnswersFirst (regexes : Regexes) (rules : List MockResponse) (req : Request)
    (answer : Option Cors.Response) : Prop where
  none : answer = none ↔ ∀ rule ∈ rules, ¬ Covers regexes rule.toPathRule req
  some : ∀ resp, answer = some resp → ∃ before rule later, rules = before ++ rule :: later ∧
    Covers regexes rule.toPathRule req ∧ (∀ r ∈ before, ¬ Covers regexes r.toPathRule req) ∧
    resp.status = rule.status ∧ resp.body = Text.utf8 rule.body ∧
    ∀ name, resp.headers.getAll name = (rule.configured name).toList

/-- **The first mock answers.** Mocks that validation accepts compile; a request is answered by the first one that
covers it, with its status, its body and its headers and nothing else, and by no other. -/
theorem first_mock_answers {rules : List MockResponse} (apiId : String) (h : validateMocks regexes rules = .ok ()) :
    ∃ compiled, mockRules regexes rules apiId = .ok compiled ∧
      ∀ req, AnswersFirst regexes rules req (callMock compiled req) := by
  simp only [validateMocks, List.forM_eq_forM, forM_eq_ok] at h
  have hcompiles : ∀ rule ∈ rules, ∃ compiled, CompiledMock.compile regexes apiId rule = .ok compiled := by
    intro rule hrule
    obtain ⟨i, hi⟩ := List.mem_iff_getElem?.1 hrule
    exact exists_compileMock apiId (h (rule, i) (List.mem_zipIdx_iff_getElem?.2 hi))
  obtain ⟨compiled, hcompiled⟩ := exists_mapM_eq_ok.2 hcompiles
  refine ⟨compiled, hcompiled, fun req => ?_⟩
  obtain ⟨hnone, hsome⟩ := find?_mapM (p := fun r => r.matches req.method req.path)
    (q := fun rule => Covers regexes rule.toPathRule req) hcompiled
    fun rule _ r hr => (compileMock_eq_ok hr).1 req
  constructor
  case none => rw [callMock, Option.map_eq_none_iff, hnone]
  case some =>
    intro resp hresp
    obtain ⟨r, hfind, rfl⟩ := Option.map_eq_some_iff.1 hresp
    obtain ⟨before, rule, later, hrules, hr, hcovers, hbefore⟩ := hsome r hfind
    obtain ⟨-, hstatus, hheaders, hbody⟩ := compileMock_eq_ok hr
    exact ⟨before, rule, later, hrules, hcovers, hbefore, hstatus, hbody, getAll_response hheaders⟩

/-- Which endpoint limit of an API is found for a request: the first rule that covers it, by its place in the list, or
none. -/
structure FindsFirst (regexes : Regexes) (limits : List EndpointRateLimit) (orgId scope : String) (req : Request)
    (found : Option CompiledEndpointLimit) : Prop where
  none : found = none ↔ ∀ limit ∈ limits, ¬ Covers regexes (limitRule limit) req
  some : ∀ compiled, found = some compiled → ∃ before limit later, limits = before ++ limit :: later ∧
    Covers regexes (limitRule limit) req ∧ (∀ l ∈ before, ¬ Covers regexes (limitRule l) req) ∧
    compiled.requests = limit.rate.requests ∧ compiled.window = limit.rate.perSeconds * 1000 ∧
    compiled.storageKey = endpointRateLimitStorageKey orgId scope before.length

theorem exists_compileLimit {B : Type} {c : Crates B} (apiId orgId scope : String)
    (hregexes : ∀ pattern, c.compileRegex pattern = .ok () → ∃ found, regexes pattern = .ok found)
    {limit : EndpointRateLimit} {index : ℕ} (h : limit.validate c index = .ok ()) :
    ∃ compiled, compileLimit regexes apiId orgId scope (limit, index) = .ok compiled := by
  simp only [EndpointRateLimit.validate, bind_eq_ok, mapError_eq_ok, validateMethods_eq_ok] at h
  obtain ⟨_, hpattern, _, hmethods, -⟩ := h
  have haccepted : Accepted regexes (limitRule limit) := ⟨hregexes _ hpattern, hmethods⟩
  obtain ⟨compiled, hcompiled⟩ := exists_compileRule "endpoint rate-limit" apiId haccepted
  simp only [compileLimit, hcompiled, ok_bind]
  exact ⟨_, rfl⟩

/-- An entry of a numbered list has the number of those before it. -/
theorem zipIdx_eq_append_cons {α : Type*} {l : List α} {before later : List (α × ℕ)} {entry : α × ℕ}
    (h : l.zipIdx = before ++ entry :: later) :
    l = before.map Prod.fst ++ entry.1 :: later.map Prod.fst ∧ entry.2 = before.length := by
  constructor
  · rw [← List.zipIdx_map_fst 0 l, h, List.map_append, List.map_cons]
  · have hentry : l.zipIdx[before.length]? = some entry := by
      rw [h, List.getElem?_append_right le_rfl, Nat.sub_self]
      rfl
    rw [List.getElem?_zipIdx] at hentry
    obtain ⟨a, -, rfl⟩ := Option.map_eq_some_iff.1 hentry
    exact Nat.zero_add _

/-- Endpoint limits that validation accepts compile, and the first one that covers a request is found. -/
theorem endpointLimits_eq_ok {B : Type} {c : Crates B} {limits : List EndpointRateLimit} (apiId orgId scope : String)
    (hregexes : ∀ pattern, c.compileRegex pattern = .ok () → ∃ found, regexes pattern = .ok found)
    (h : ∀ entry ∈ limits.zipIdx, entry.1.validate c entry.2 = .ok ()) :
    ∃ compiled, endpointLimits regexes limits apiId orgId scope = .ok compiled ∧ ∀ req : Request,
      FindsFirst regexes limits orgId scope req (compiled.bind fun rules => firstMatch rules req.method req.path) := by
  rw [endpointLimits]
  split_ifs with hempty
  · obtain rfl := List.isEmpty_iff.1 hempty
    exact ⟨none, rfl, fun req => ⟨by simp, by simp⟩⟩
  · obtain ⟨compiled, hcompiled⟩ := exists_mapM_eq_ok.2 fun entry hentry =>
      exists_compileLimit apiId orgId scope hregexes (h entry hentry)
    refine ⟨some compiled, ?_, fun req => ?_⟩
    · rw [hcompiled]
      rfl
    obtain ⟨hnone, hsome⟩ := find?_mapM (p := fun r => r.matches req.method req.path)
      (q := fun entry => Covers regexes (limitRule entry.1) req) hcompiled
      fun entry _ r hr => (compileLimit_eq_ok hr).1 req
    constructor
    case none =>
      show firstMatch compiled req.method req.path = none ↔ _
      rw [firstMatch, hnone]
      constructor
      · intro hall limit hlimit
        obtain ⟨i, hi⟩ := List.mem_iff_getElem?.1 hlimit
        exact hall (limit, i) (List.mem_zipIdx_iff_getElem?.2 hi)
      · intro hall entry hentry
        exact hall entry.1 (List.mem_of_getElem? (List.mem_zipIdx_iff_getElem?.1 hentry))
    case some =>
      intro r hfind
      obtain ⟨before, entry, later, hsplit, hr, hcovers, hbefore⟩ := hsome r hfind
      obtain ⟨hlimits, hindex⟩ := zipIdx_eq_append_cons hsplit
      obtain ⟨-, hrequests, hwindow, hkey⟩ := compileLimit_eq_ok hr
      refine ⟨before.map Prod.fst, entry.1, later.map Prod.fst, hlimits, hcovers, ?_, hrequests, hwindow, ?_⟩
      · intro l hl
        obtain ⟨e, he, rfl⟩ := List.mem_map.1 hl
        exact hbefore e he
      · rw [hkey, hindex, List.length_map]

/-- What the endpoint limits of an API make of a request: it is counted under the first rule that covers it, in the
counter of the place of that rule in the list, and under no other rule. -/
structure CountsFirst (regexes : Regexes) (limits : List EndpointRateLimit) (orgId scope : String) (b : Backend ε ρ κ)
    (moment : Moment ε) (req : Request) (w : World ρ κ) (s : Step ρ κ) : Prop where
  /-- No rule covers it: none is checked. -/
  uncounted : (∀ limit ∈ limits, ¬ Covers regexes (limitRule limit) req) → ∀ check ∈ s.performed, check.gate ≠ .endpoint
  /-- Else the first that does is checked, first of all and as the only one, and its counter is charged. -/
  counted : ∀ before limit later, limits = before ++ limit :: later → Covers regexes (limitRule limit) req →
    (∀ l ∈ before, ¬ Covers regexes (limitRule l) req) →
    ∃ key answer, key = endpointRateLimitStorageKey orgId scope before.length ∧
      answer = b.checkRate moment.storage (w.rates key) limit.rate.requests (limit.rate.perSeconds * 1000) ∧
      ∃ checks, s.performed = ⟨.endpoint, key, verdictOf answer.1⟩ :: checks ∧
        (∀ check ∈ checks, check.gate ≠ .endpoint) ∧
        ((∀ check ∈ checks, check.gate = .rate → check.key ≠ key) → s.world.rates key = answer.2)
  /-- No other counter changes, but those of the session. -/
  others : ∀ key, (∀ check ∈ s.performed, check.gate = .endpoint ∨ check.gate = .rate → check.key ≠ key) →
    s.world.rates key = w.rates key

/-- The first of some that is so is the only first. -/
theorem eq_of_first {α : Type*} {p : α → Prop} {before before' later later' : List α} {a a' : α}
    (h : before ++ a :: later = before' ++ a' :: later') (ha : p a) (ha' : p a') (hbefore : ∀ x ∈ before, ¬ p x)
    (hbefore' : ∀ x ∈ before', ¬ p x) : before = before' ∧ a = a' := by
  rcases List.append_eq_append_iff.1 h with ⟨as, rfl, htail⟩ | ⟨bs, rfl, htail⟩
  · cases as with
    | nil => exact ⟨(List.append_nil _).symm, (List.cons.inj htail).1⟩
    | cons x xs =>
      obtain ⟨rfl, -⟩ := List.cons.inj htail
      exact absurd ha (hbefore' a (by simp))
  · cases bs with
    | nil => exact ⟨List.append_nil _, (List.cons.inj htail).1.symm⟩
    | cons x xs =>
      obtain ⟨rfl, -⟩ := List.cons.inj htail
      exact absurd ha' (hbefore a' (by simp))

end First

/-! ### A path that is ignored and blocked -/

/-- The patterns `^p` without special characters. -/
def anchored : Regexes := fun pattern =>
  match pattern.toList with
  | '^' :: p => .ok fun path => p.isPrefixOf path.toList
  | _ => .error "not an anchored literal"

theorem path_lists_judged_internal :
    ∃ st, PolicyState.fromConfig anchored [] [⟨"^/users/internal", ["delete"]⟩] [⟨"^/users", []⟩] "users" = .ok st ∧
      Judges anchored [] [⟨"^/users/internal", ["delete"]⟩] [⟨"^/users", []⟩] (callPolicy st) :=
  path_lists_judged "users" rfl (by decide) (by decide)

/-- Two mocks that both cover a `GET` of `/users/ping`. -/
def pingMocks : List MockResponse :=
  [⟨⟨"^/users/ping", ["GET"]⟩, 200, "pong", [("X-Mock", "1"), ("x-mock", "2")]⟩, ⟨⟨"^/users", []⟩, 503, "closed", []⟩]

theorem first_mock_answers_ping : ∃ compiled, mockRules anchored pingMocks "users" = .ok compiled ∧
    ∀ req, AnswersFirst anchored pingMocks req (callMock compiled req) :=
  first_mock_answers "users" (by decide)

/-- What the crates make of anchored literals. -/
def anchoredCrates : Crates Unit where
  parseUri _ := .error "no URL"
  compileRegex pattern := (anchored pattern).map fun _ => ()
  blocks _ := .ok ()
  graphqlBlocks _ _ _ := .ok false

/-- Two limits that both cover a `POST` to `/users/search`. -/
def searchLimits : List EndpointRateLimit := [⟨"^/users/search", ["POST"], ⟨10, 60⟩⟩, ⟨"^/users", [], ⟨100, 60⟩⟩]

/-- A storage that counts, and never forgets. -/
def counting : Backend Unit ℕ ℕ where
  checkRate _ n limit window := (some ⟨n < limit, limit - (n + 1), window⟩, n + 1)
  checkQuota _ n max period := (some ⟨n < max, max - (n + 1), period⟩, n + 1)

/-- The eleventh search is denied under the first limit, and another request is counted under the second. -/
example : (endpointLimits anchored searchLimits "users" "acme" "users:v2").toOption.map (fun compiled =>
    [({ method := "POST", path := "/users/search" } : Request), { method := "GET", path := "/users/7" }].map fun req =>
      (enforce counting ⟨compiled⟩ ⟨0, 0, ()⟩ req ⟨fun _ => 10, fun _ => 0, none⟩).performed) =
    some [[⟨.endpoint, "g2:acme:endpointrl:users:v2:0", .denied⟩],
      [⟨.endpoint, "g2:acme:endpointrl:users:v2:1", .allowed⟩]] := by
  decide +kernel

end G2way.Middleware.PathRules
