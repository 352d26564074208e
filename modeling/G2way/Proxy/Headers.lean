import G2way.Proxy.Tunnel

/-!
# Headers the gateway sets

Two layers set headers on the way to the upstream. The header transform of an API
inserts the ones its definition lists, and `ApiIdHeader`, the innermost layer,
inserts `x-g2-api-id`, "so neither transforms nor plugins can spoof it". Below
both the forwarder removes what is connection-local: a fixed set, "plus anything
the request's own `Connection` header names". The tokens it reads there are the
client's.

## The model

`passDown` and `upstreamRequest` are the chain from the header transform to the
wire. A header that a later layer decides itself is excepted (`laterLayersSet`):
the id, the framing of a body that was rendered anew, `X-Forwarded-For`, and
`Host` where it is not preserved. `X-Forwarded-Host` and `-Proto` are not, since
the forwarder keeps those it finds; it fills them in only where they are absent.

## What is proved

* `gateway_headers_reach_iff` — a request goes out with the API's id and every
  header the transform sets exactly when no `Connection` line that reaches the
  forwarder lists one of these names (or the forwarder happens to fill in the very
  value that was removed).
* `connection_token_drops_api_id` — one token is enough to lose the id.
-/

namespace G2way.Proxy

open G2way.Core G2way.Lib G2way.Middleware G2way.GraphQl

variable {B : Type}

/-! ### What the gateway sets -/

/-- The rules for the requests of an API. -/
def requestTransform (def_ : ApiDefinition B) : HeaderTransform := (def_.transformHeaders.map (·.request)).getD {}

/-- `CompiledRules::compile`: the headers to set, by parsed name. -/
def compiledAdd (t : HeaderTransform) : HeaderMap :=
  t.add.filterMap fun p => (headerName p.1).map fun name => (name, headerValue p.2)

/-- The value a transform sets for a name: the last one, where it has the name in several spellings. -/
def configuredValue (t : HeaderTransform) (name : String) : Option HeaderValue :=
  ((compiledAdd t).getAll name).getLast?

/-- The transform removes a header. -/
def removes (t : HeaderTransform) (name : String) : Bool := (t.remove.filterMap headerName).contains name

/-- A body rule matches: the request goes on with the body the rule renders. -/
def rendersBody (def_ : ApiDefinition B) (layers : LowerLayers) (req : Request) : Bool :=
  match layers.transformBody { req with headers := applyHeaderTransform (requestTransform def_) req.headers } with
  | .ok (some _) => true
  | _ => false

/-- A layer below the header transform decides the header itself. -/
def laterLayersSet (def_ : ApiDefinition B) (layers : LowerLayers) (req : Request) (name : String) : Bool :=
  name == "x-g2-api-id" || name == "x-forwarded-for" || (name == "host" && !def_.preserveHostHeader) ||
    (rendersBody def_ layers req && ["content-type", "content-length", "content-encoding"].contains name)

/-- The request that goes out, unless a layer answers or the circuit is open. -/
def sentUpstream (def_ : ApiDefinition B) (layers : LowerLayers) (req : Request) : Option Request :=
  if layers.admitted then (passDown def_ layers req).map (upstreamRequest (UpstreamTarget.build def_)) else none

/-- The headers the gateway sets are in the request that goes out, each once. -/
structure GatewayHeadersReach (def_ : ApiDefinition B) (layers : LowerLayers) (req sent : Request) : Prop where
  apiId : (headerValueFromStr def_.apiId).isSome = true →
    sent.headers.getAll "x-g2-api-id" = [headerValue def_.apiId]
  added : ∀ name value, configuredValue (requestTransform def_) name = some value → name ∉ hopByHop →
    laterLayersSet def_ layers req name = false → sent.headers.getAll name = [value]

/-! ### What a request asks to have removed -/

/-- The names the `Connection` lines list. -/
def connectionNames (headers : HeaderMap) : List String :=
  ((headers.getAll "connection").filterMap HeaderValue.toStr).flatMap fun v =>
    (Text.split ',' v).filterMap fun name => headerName (Text.trim name)

/-- The names listed by the `Connection` lines that reach the forwarder: the request's own, unless the
transform removes them. -/
def listedNames (def_ : ApiDefinition B) (req : Request) : List String :=
  if removes (requestTransform def_) "connection" then [] else connectionNames req.headers

/-- The host the forwarder finds. -/
def forwardedHost (def_ : ApiDefinition B) (req : Request) : Option HeaderValue :=
  match configuredValue (requestTransform def_) "host" with
  | some v => some v
  | none => if removes (requestTransform def_) "host" then none else req.headers.get "host"

/-- What `apply_forwarded_headers` fills in for a header that is absent. -/
def forwardedValue (host : Option HeaderValue) (tls : Bool) (name : String) : Option HeaderValue :=
  if name = "x-forwarded-proto" then some (headerValue (if tls then "https" else "http"))
  else if name = "x-forwarded-host" then host
  else none

/-- The request's `Connection` lines list no header the gateway sets, other than one the forwarder
fills in again with the same value. -/
structure SparesGatewayHeaders (def_ : ApiDefinition B) (layers : LowerLayers) (req : Request) : Prop where
  apiId : (headerValueFromStr def_.apiId).isSome = true → "x-g2-api-id" ∉ listedNames def_ req
  added : ∀ name value, configuredValue (requestTransform def_) name = some value → name ∉ hopByHop →
    laterLayersSet def_ layers req name = false → name ∈ listedNames def_ req →
      forwardedValue (forwardedHost def_ req) (req.extensions.connection.any (·.tls)) name = some value

/-! ### The forwarder -/

section Forwarder

variable {target : UpstreamTarget} {req : Request} {headers : HeaderMap} {name : String} {value : HeaderValue}

theorem getAll_stripHopByHopHeaders (headers : HeaderMap) (hhop : name ∉ hopByHop) :
    (stripHopByHopHeaders headers).getAll name =
      if name ∈ connectionNames headers then [] else headers.getAll name := by
  have hstrip : stripHopByHopHeaders headers = (connectionNames headers ++ hopByHop).foldl HeaderMap.remove headers :=
    rfl
  rw [hstrip, HeaderMap.getAll_foldl_remove]
  simp [hhop]

/-- A header set where it is absent, if there is a value for it. -/
def insertIfAbsent (headers : HeaderMap) (name : String) (v : Option HeaderValue) : HeaderMap :=
  match headers.get name, v with
  | none, some v => headers.insert name v
  | _, _ => headers

theorem getAll_insertIfAbsent (headers : HeaderMap) (other : String) (v : Option HeaderValue) :
    (insertIfAbsent headers other v).getAll name =
      if name = other ∧ headers.getAll name = [] then v.toList else headers.getAll name := by
  have habsent : headers.get other = none ↔ headers.getAll other = [] := by
    rw [HeaderMap.get_eq_head?_getAll, List.head?_eq_none_iff]
  cases hget : headers.get other with
  | none =>
    by_cases hname : name = other
    · subst hname
      cases v with
      | none => simp [insertIfAbsent, hget, habsent.1 hget]
      | some v => simp [insertIfAbsent, hget, habsent.1 hget, HeaderMap.getAll_insert]
    · cases v with
      | none => simp [insertIfAbsent, hget, hname]
      | some v => simp [insertIfAbsent, hget, hname, HeaderMap.getAll_insert]
  | some w =>
    have hpresent : ¬ (name = other ∧ headers.getAll name = []) := by
      rintro ⟨rfl, hnil⟩
      rw [habsent.2 hnil] at hget
      cases hget
    simp [insertIfAbsent, hget, if_neg hpresent]

/-- The scheme, which is always there to be filled in. -/
def fillProto (headers : HeaderMap) (v : HeaderValue) : HeaderMap :=
  match headers.get "x-forwarded-proto" with
  | none => headers.insert "x-forwarded-proto" v
  | some _ => headers

theorem fillProto_eq (headers : HeaderMap) (v : HeaderValue) :
    fillProto headers v = insertIfAbsent headers "x-forwarded-proto" (some v) := by
  unfold fillProto insertIfAbsent
  cases headers.get "x-forwarded-proto" <;> rfl

/-- The chain it makes of the first line it finds. -/
def forwardedChain (headers : HeaderMap) (clientIp : String) : String :=
  match headers.getStr "x-forwarded-for" with
  | some existing => existing ++ ", " ++ clientIp
  | none => clientIp

/-- `apply_forwarded_headers` sets `X-Forwarded-For`, and the other two where they are absent. -/
theorem applyForwardedHeaders_eq (headers : HeaderMap) (clientIp : String) (host : Option HeaderValue) (tls : Bool) :
    applyForwardedHeaders headers clientIp host tls =
      insertIfAbsent (insertIfAbsent (headers.insert "x-forwarded-for" (headerValue (forwardedChain headers clientIp)))
        "x-forwarded-host" host) "x-forwarded-proto" (some (headerValue (if tls then "https" else "http"))) := by
  rw [← fillProto_eq]
  rfl

theorem getAll_forwardedFor (headers : HeaderMap) (clientIp : String) (host : Option HeaderValue) (tls : Bool) :
    (applyForwardedHeaders headers clientIp host tls).getAll "x-forwarded-for" =
      [headerValue (forwardedChain headers clientIp)] := by
  rw [applyForwardedHeaders_eq, getAll_insertIfAbsent, if_neg (by simp), getAll_insertIfAbsent, if_neg (by simp),
    HeaderMap.getAll_insert, if_pos rfl]

/-- It leaves every other header, and fills in what is absent. -/
theorem getAll_applyForwardedHeaders (headers : HeaderMap) (clientIp : String) (host : Option HeaderValue)
    (tls : Bool) (hname : name ≠ "x-forwarded-for") :
    (applyForwardedHeaders headers clientIp host tls).getAll name =
      if headers.getAll name = [] then (forwardedValue host tls name).toList else headers.getAll name := by
  rw [applyForwardedHeaders_eq, getAll_insertIfAbsent, getAll_insertIfAbsent, HeaderMap.getAll_insert, if_neg hname]
  by_cases hnil : headers.getAll name = []
  · by_cases hproto : name = "x-forwarded-proto"
    · simp [hproto, forwardedValue]
    · by_cases hhost : name = "x-forwarded-host"
      · simp [hhost, forwardedValue]
      · simp [hnil, hproto, hhost, forwardedValue]
  · simp [hnil]

/-- What the forwarder makes of a header it gets once: it goes out as it is, unless a `Connection`
line lists it. -/
theorem getAll_upstreamRequest (hvalue : req.headers.getAll name = [value]) (hhop : name ∉ hopByHop)
    (hfor : name ≠ "x-forwarded-for") (hhost : name = "host" → target.preserveHostHeader = true) :
    (upstreamRequest target req).headers.getAll name =
      if name ∈ connectionNames req.headers then
        (forwardedValue (req.headers.get "host") (req.extensions.connection.any (·.tls)) name).toList
      else [value] := by
  have hother : ∀ x ∈ hopByHop, name ≠ x := fun x hx heq => hhop (heq ▸ hx)
  have hprepared : (upstreamRequest target req).headers.getAll name =
      (prepareUpstreamHeaders req.headers target (req.extensions.clientAddr.getD "0.0.0.0")
        (req.extensions.connection.any (·.tls))).getAll name := by
    simp only [upstreamRequest]
    generalize prepareUpstreamHeaders _ _ _ _ = prepared
    have hte : (if keepsTe target req then prepared.insert "te" (headerValue "trailers") else prepared).getAll name =
        prepared.getAll name := by
      split_ifs
      · rw [HeaderMap.getAll_insert, if_neg (hother _ (by decide))]
      · rfl
    rw [← hte]
    generalize (if keepsTe target req then prepared.insert "te" (headerValue "trailers") else prepared) = kept
    cases upgradeOf target req with
    | none => rfl
    | some upgrade =>
      simp only
      rw [HeaderMap.getAll_insert, if_neg (hother _ (by decide)), HeaderMap.getAll_insert,
        if_neg (hother _ (by decide))]
  have hkept : (if target.preserveHostHeader then stripHopByHopHeaders req.headers
      else (stripHopByHopHeaders req.headers).remove "host").getAll name =
        (stripHopByHopHeaders req.headers).getAll name := by
    split_ifs with hpreserve
    · rfl
    · rw [HeaderMap.getAll_remove, if_neg fun heq => hpreserve (hhost heq)]
  rw [hprepared, prepareUpstreamHeaders, getAll_applyForwardedHeaders _ _ _ _ hfor, hkept, getAll_stripHopByHopHeaders _ hhop, hvalue]
  split_ifs with hlisted hnil hnil
  · rfl
  · exact absurd rfl hnil
  · cases hnil
  · rfl

end Forwarder

/-! ### The layers above it -/

section Layers

variable {def_ : ApiDefinition B} {crates : Crates B} {layers : LowerLayers} {req req' : Request} {name : String}

theorem getAll_applyHeaderTransform (t : HeaderTransform) (headers : HeaderMap) (name : String) :
    (applyHeaderTransform t headers).getAll name =
      match configuredValue t name with
      | some v => [v]
      | none => if removes t name then [] else headers.getAll name := by
  have hcompiled : applyHeaderTransform t headers = (compiledAdd t).foldl (fun h p => h.insert p.1 p.2)
      ((t.remove.filterMap headerName).foldl HeaderMap.remove headers) := rfl
  have hremoves : removes t name = true ↔ name ∈ t.remove.filterMap headerName := List.contains_iff_mem
  rw [hcompiled, HeaderMap.getAll_foldl_insert, HeaderMap.getAll_foldl_remove, configuredValue]
  cases (HeaderMap.getAll (compiledAdd t) name).getLast? with
  | some v => rfl
  | none => simp only [hremoves]

/-- A valid definition sets no hop-by-hop header. -/
theorem configuredValue_eq_none (hvalid : def_.validate crates = .ok ()) (hname : name ∈ hopByHop) :
    configuredValue (requestTransform def_) name = none := by
  rw [configuredValue, List.getLast?_eq_none_iff, HeaderMap.getAll, List.map_eq_nil_iff, List.filter_eq_nil_iff]
  intro p hp
  simp only [compiledAdd, List.mem_filterMap, Option.map_eq_some_iff] at hp
  obtain ⟨q, hq, lower, hlower, rfl⟩ := hp
  unfold requestTransform at hq
  cases htransforms : def_.transformHeaders with
  | none => simp [htransforms] at hq
  | some t =>
    have ht := validate_transformHeaders hvalid htransforms
    simp only [HeaderTransforms.validate, HeaderTransform.validate, Result.bind_eq_ok, List.forM_eq_forM,
      Result.forM_eq_ok, Result.ensure_eq_ok] at ht
    obtain ⟨_, ⟨_, hadd, -⟩, -⟩ := ht
    obtain ⟨_, _, _, hhop, -⟩ := hadd q (by simpa [htransforms] using hq)
    have hnot := headerName_notMem_hopByHop hlower (by simpa using hhop)
    simp only [decide_eq_true_eq]
    rintro rfl
    exact hnot hname

/-- The framing of a rendered body apart, the body transform leaves the headers alone. -/
theorem getAll_transformBody (h : transformBody layers req = some req')
    (hframing : (∃ rendered, layers.transformBody req = .ok (some rendered)) →
      name ∉ ["transfer-encoding", "content-encoding", "content-type", "content-length"]) :
    req'.headers.getAll name = req.headers.getAll name := by
  unfold transformBody at h
  split at h
  · cases h
  · obtain rfl := Option.some.inj h
    rfl
  · rename_i contentType body hrendered
    obtain rfl := Option.some.inj h
    have hnot := hframing ⟨_, hrendered⟩
    simp only [List.mem_cons, List.not_mem_nil, or_false, not_or] at hnot
    obtain ⟨hte, hce, hct, hcl⟩ := hnot
    simp only [setFramingHeaders, HeaderMap.getAll_insert, HeaderMap.getAll_remove, if_neg hte, if_neg hce,
      if_neg hct, if_neg hcl]

theorem getAll_stampApiId_of_ne (apiId : String) (hname : name ≠ "x-g2-api-id") :
    (stampApiId apiId req).headers.getAll name = req.headers.getAll name := by
  unfold stampApiId
  split
  · rw [HeaderMap.getAll_insert, if_neg hname]
  · rw [HeaderMap.getAll_remove, if_neg hname]

theorem rendersBody_iff : rendersBody def_ layers req = true ↔ ∃ rendered, layers.transformBody
    { req with headers := applyHeaderTransform (requestTransform def_) req.headers } = .ok (some rendered) := by
  unfold rendersBody
  split
  · rename_i rendered hrendered
    simp [hrendered]
  · rename_i hother
    simp only [Bool.false_eq_true, false_iff, not_exists]
    exact hother

/-- A header that no later layer decides comes to the forwarder as the transform left it. -/
theorem getAll_passDown (h : passDown def_ layers req = some req') (hname : name ≠ "x-g2-api-id")
    (hframing : rendersBody def_ layers req = true →
      name ∉ ["transfer-encoding", "content-encoding", "content-type", "content-length"]) :
    req'.headers.getAll name = (applyHeaderTransform (requestTransform def_) req.headers).getAll name := by
  simp only [passDown, Option.bind_eq_bind, Option.bind_eq_some_iff] at h
  obtain ⟨r, hr, h⟩ := h
  split_ifs at h
  obtain rfl := Option.some.inj h
  rw [getAll_stampApiId_of_ne _ hname, getAll_transformBody hr fun hrendered => hframing (rendersBody_iff.2 hrendered)]
  rfl

/-- The `Connection` lines that reach the forwarder are the request's own, unless the transform
removes them. -/
theorem connectionNames_passDown (hvalid : def_.validate crates = .ok ())
    (h : passDown def_ layers req = some req') : connectionNames req'.headers = listedNames def_ req := by
  have hlines : req'.headers.getAll "connection" = _ := getAll_passDown h (by decide) fun _ => by decide
  rw [getAll_applyHeaderTransform, configuredValue_eq_none hvalid (by decide)] at hlines
  simp only at hlines
  rw [connectionNames, hlines, listedNames]
  split_ifs
  · rfl
  · rfl

theorem get_host_passDown (h : passDown def_ layers req = some req') :
    req'.headers.get "host" = forwardedHost def_ req := by
  have hlines : req'.headers.getAll "host" = _ := getAll_passDown h (by decide) fun _ => by decide
  rw [HeaderMap.get_eq_head?_getAll, hlines, getAll_applyHeaderTransform, forwardedHost]
  cases configuredValue (requestTransform def_) "host" with
  | some v => rfl
  | none =>
    simp only
    split_ifs
    · rfl
    · exact (HeaderMap.get_eq_head?_getAll ..).symm

/-- A header of the transform that no later layer decides comes to the forwarder with its value. -/
theorem getAll_configured {value : HeaderValue} (h : passDown def_ layers req = some req')
    (hvalue : configuredValue (requestTransform def_) name = some value) (hhop : name ∉ hopByHop)
    (hlater : laterLayersSet def_ layers req name = false) : req'.headers.getAll name = [value] := by
  simp only [laterLayersSet, Bool.or_eq_false_iff, beq_eq_false_iff_ne, Bool.and_eq_false_iff] at hlater
  obtain ⟨⟨⟨hid, -⟩, -⟩, hframing⟩ := hlater
  rw [getAll_passDown h hid, getAll_applyHeaderTransform, hvalue]
  intro hrenders
  have hte : name ≠ "transfer-encoding" := fun heq => hhop (heq ▸ by decide)
  have hnot := hframing.resolve_left (by simp [hrenders])
  simp at hnot
  simp [hte, hnot]

theorem getAll_apiId (h : passDown def_ layers req = some req')
    (hid : (headerValueFromStr def_.apiId).isSome = true) :
    req'.headers.getAll "x-g2-api-id" = [headerValue def_.apiId] := by
  simp only [passDown, Option.bind_eq_bind, Option.bind_eq_some_iff] at h
  obtain ⟨r, -, h⟩ := h
  split_ifs at h
  obtain rfl := Option.some.inj h
  obtain ⟨value, hvalue⟩ := Option.isSome_iff_exists.1 hid
  have hbytes : value = headerValue def_.apiId := headerValueFromBytes_eq_some hvalue
  simp only [stampApiId, hvalue, hbytes, HeaderMap.getAll_insert, if_true]

end Layers

/-! ### The chain -/

section Chain

variable {def_ : ApiDefinition B} {crates : Crates B} {layers : LowerLayers} {req sent : Request}

theorem sentUpstream_some (h : sentUpstream def_ layers req = some sent) :
    ∃ req', passDown def_ layers req = some req' ∧ sent = upstreamRequest (UpstreamTarget.build def_) req' := by
  unfold sentUpstream at h
  split_ifs at h
  obtain ⟨req', hpass, rfl⟩ := Option.map_eq_some_iff.1 h
  exact ⟨req', hpass, rfl⟩

/-- What becomes of a header of the transform on the way out. -/
theorem getAll_sent_configured {name : String} {value : HeaderValue} (hvalid : def_.validate crates = .ok ())
    (h : sentUpstream def_ layers req = some sent)
    (hvalue : configuredValue (requestTransform def_) name = some value) (hhop : name ∉ hopByHop)
    (hlater : laterLayersSet def_ layers req name = false) :
    sent.headers.getAll name = if name ∈ listedNames def_ req then
        (forwardedValue (forwardedHost def_ req) (req.extensions.connection.any (·.tls)) name).toList
      else [value] := by
  obtain ⟨req', hpass, rfl⟩ := sentUpstream_some h
  have hdecided := hlater
  simp only [laterLayersSet, Bool.or_eq_false_iff, beq_eq_false_iff_ne, Bool.and_eq_false_iff] at hdecided
  obtain ⟨⟨⟨-, hfor⟩, hhost⟩, -⟩ := hdecided
  rw [getAll_upstreamRequest (getAll_configured hpass hvalue hhop hlater) hhop hfor,
    connectionNames_passDown hvalid hpass, get_host_passDown hpass, (passDown_some hvalid hpass).1]
  intro heq
  simpa [UpstreamTarget.build] using hhost.resolve_left (not_not.2 heq)

/-- What becomes of the API's id. -/
theorem getAll_sent_apiId (hvalid : def_.validate crates = .ok ()) (h : sentUpstream def_ layers req = some sent)
    (hid : (headerValueFromStr def_.apiId).isSome = true) :
    sent.headers.getAll "x-g2-api-id" =
      if "x-g2-api-id" ∈ listedNames def_ req then [] else [headerValue def_.apiId] := by
  obtain ⟨req', hpass, rfl⟩ := sentUpstream_some h
  rw [getAll_upstreamRequest (getAll_apiId hpass hid) (by decide) (by decide) fun heq => absurd heq (by decide),
    connectionNames_passDown hvalid hpass]
  rfl

/-- **Headers the gateway sets reach the upstream**, exactly when the `Connection` lines of the
request, as it comes to the header transform, list none of them: one they list is removed below the
layer that set it, and of these the forwarder fills in only `X-Forwarded-Host` and `-Proto`, with
values of its own. -/
theorem gateway_headers_reach_iff (hvalid : def_.validate crates = .ok ())
    (hsent : sentUpstream def_ layers req = some sent) :
    GatewayHeadersReach def_ layers req sent ↔ SparesGatewayHeaders def_ layers req := by
  constructor
  · intro h
    refine ⟨fun hid hlisted => ?_, fun name value hvalue hhop hlater hlisted => ?_⟩
    · have hreach := h.apiId hid
      rw [getAll_sent_apiId hvalid hsent hid, if_pos hlisted] at hreach
      cases hreach
    · have hreach := h.added name value hvalue hhop hlater
      rw [getAll_sent_configured hvalid hsent hvalue hhop hlater, if_pos hlisted] at hreach
      exact Option.toList_eq_singleton_iff.1 hreach
  · intro h
    refine ⟨fun hid => ?_, fun name value hvalue hhop hlater => ?_⟩
    · rw [getAll_sent_apiId hvalid hsent hid, if_neg (h.apiId hid)]
    · rw [getAll_sent_configured hvalid hsent hvalue hhop hlater]
      split_ifs with hlisted
      · rw [h.added name value hvalue hhop hlater hlisted]
        rfl
      · rfl

end Chain

/-! ### A token that takes the id away -/

/-- An API whose requests are given a tenant. -/
def tenantApi : ApiDefinition Unit :=
  { apiId := "orders", name := "orders", listenPath := "/orders/", targetUrl := "http://up.internal",
    transformHeaders := some { request := { add := [("X-Tenant", "acme")] } }, blocks := () }

/-- A client's `GET` with a `Connection` line. -/
def connectionRequest (line : String) : Request :=
  { path := "/orders/1", headers := [("connection", headerValue line)] }

theorem tenantApi_valid : tenantApi.validate plainCrates = .ok () := rfl

/-- `Connection: close, X-G2-Api-Id`: the request goes out without the id. -/
theorem connection_token_drops_api_id :
    tenantApi.validate plainCrates = .ok () ∧
      ∃ sent, sentUpstream tenantApi {} (connectionRequest "close, X-G2-Api-Id") = some sent ∧
        ¬ GatewayHeadersReach tenantApi {} (connectionRequest "close, X-G2-Api-Id") sent := by
  have hlost : (sentUpstream tenantApi {} (connectionRequest "close, X-G2-Api-Id")).map
      (fun r => r.headers.getAll "x-g2-api-id") = some [] := by
    decide +kernel
  obtain ⟨sent, hsent, hnone⟩ := Option.map_eq_some_iff.1 hlost
  refine ⟨tenantApi_valid, sent, hsent, fun hreach => ?_⟩
  rw [hreach.apiId (by decide)] at hnone
  cases hnone

/-- `Connection: keep-alive` takes nothing away. -/
theorem gateway_headers_reach_iff_keepAlive :
    ∃ sent, sentUpstream tenantApi {} (connectionRequest "keep-alive") = some sent ∧
      GatewayHeadersReach tenantApi {} (connectionRequest "keep-alive") sent := by
  have hsome : (sentUpstream tenantApi {} (connectionRequest "keep-alive")).isSome = true := by decide +kernel
  obtain ⟨sent, hsent⟩ := Option.isSome_iff_exists.1 hsome
  have hlisted : listedNames tenantApi (connectionRequest "keep-alive") = ["keep-alive"] := by decide +kernel
  refine ⟨sent, hsent, (gateway_headers_reach_iff tenantApi_valid hsent).2 ⟨fun _ => ?_, ?_⟩⟩
  · rw [hlisted]
    decide
  · intro name value _ hhop _ hmem
    rw [hlisted, List.mem_singleton] at hmem
    subst hmem
    exact absurd (by decide) hhop

end G2way.Proxy
