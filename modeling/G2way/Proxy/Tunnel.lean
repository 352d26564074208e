import G2way.GraphQl.Policed
import G2way.Proxy.Forward
import G2way.Proxy.Router

/-!
# Subscription tunnels

An API with `graphql.subscriptions` lets connections upgrade even where
`enable_upgrades` is off, because "the GraphQL layer polices or rejects every
WebSocket handshake on such an API, so no opaque tunnel can result". Two crates
take part: the GraphQL layer decides what a handshake is from the method, the
first `Connection` value and the first `Upgrade` value, and stamps the tunnel on
it; the forwarder decides whether to splice from the presence of an `Upgrade`
header and of the handle.

This module is the chain from the GraphQL layer down to the forwarder, and the
comparison of the two.

## What is proved

* `splices_policed_iff` — **no unpoliced tunnel**, exactly: whatever the upstream
  answers, a splice runs the relay of the tunnel the layer stamped, unless the
  request asks for an upgrade that is no handshake to the layer and passes as a
  plain or a persisted request.
* `second_connection_line_splices` — such a request: its `upgrade` token is in a
  second `Connection` line.
-/

namespace G2way.Proxy

open G2way.Core G2way.Lib G2way.Middleware G2way.GraphQl

variable {B Num : Type}

/-! ### The layers below the GraphQL layer -/

/-- `CompiledRules::apply`: "Removes first, then inserts (replacing)". -/
def applyHeaderTransform (t : HeaderTransform) (headers : HeaderMap) : HeaderMap :=
  (t.add.filterMap fun p => (headerName p.1).map fun name => (name, headerValue p.2)).foldl
    (fun h p => h.insert p.1 p.2) ((t.remove.filterMap headerName).foldl HeaderMap.remove headers)

/-- The layers between the GraphQL layer and the forwarder that the definition alone does not
determine. -/
structure LowerLayers where
  /-- `BodyTransformer`: the content type and the body the first rule renders, where one matches; or
  its error. -/
  transformBody : Request → Except Rejection (Option (HeaderValue × List UInt8)) := fun _ => .ok none
  /-- A rule of `mock_responses` matches. -/
  mocked : Request → Bool := fun _ => false
  /-- The HTTP cache holds an entry for the request. -/
  cached : Request → Bool := fun _ => false
  /-- The circuit breaker lets the request pass. -/
  admitted : Bool := true

/-- `set_framing_headers`. -/
def setFramingHeaders (headers : HeaderMap) (contentType : HeaderValue) (len : ℕ) : HeaderMap :=
  (((headers.remove "transfer-encoding").remove "content-encoding").insert "content-type" contentType).insert
    "content-length" (headerValue (toString len))

/-- The request side of `BodyTransformer`. -/
def transformBody (layers : LowerLayers) (req : Request) : Option Request :=
  match layers.transformBody req with
  | .error _ => none
  | .ok none => some req
  | .ok (some (contentType, body)) =>
    some { req with headers := setFramingHeaders req.headers contentType body.length, body := body }

/-- `ApiIdHeader`. -/
def stampApiId (apiId : String) (req : Request) : Request :=
  let headers := match headerValueFromStr apiId with
    | some value => req.headers.insert "x-g2-api-id" value
    | none => req.headers.remove "x-g2-api-id"
  { req with headers := headers }

/-- The chain below the GraphQL layer: the request the forwarder gets, unless a layer answers. -/
def passDown (def_ : ApiDefinition B) (layers : LowerLayers) (req : Request) : Option Request := do
  let transforms := (def_.transformHeaders.map (·.request)).getD {}
  let req ← transformBody layers { req with headers := applyHeaderTransform transforms req.headers }
  if layers.mocked req then none
  else if isSafeMethod req.method && layers.cached req then none
  else some (stampApiId def_.apiId req)

/-- What becomes of a request to the GraphQL layer. -/
inductive Served where
  /-- The GraphQL layer answers. -/
  | graphQl (answer : Answer)
  /-- A layer below it answers. -/
  | answered
  | delivered (d : Delivered)

/-- The chain from the GraphQL layer down. -/
def serve (c : Serde Num) (st : LayerState Num) (def_ : ApiDefinition B) (layers : LowerLayers)
    (upstream : Request → Exchange) (req : Request) : Served :=
  match GraphQl.call c st req with
  | .error answer => .graphQl answer
  | .ok forwarded =>
    match passDown def_ layers forwarded.req with
    | none => .answered
    | some req => .delivered (forward (UpstreamTarget.build def_) layers.admitted upstream req)

/-! ### APIs with subscriptions -/

/-- An API with `graphql.subscriptions` and without `enable_upgrades`, and the state of the layer
built for it (`GraphQlLayer::from_config`). -/
structure SubscriptionApi (B Num : Type) (crates : Crates B) where
  def_ : ApiDefinition B
  config : GraphQlConfig B
  state : LayerState Num
  valid : def_.validate crates = .ok ()
  configured : def_.graphql = some config
  enabled : config.enabled = true
  subscriptions : config.subscriptionsOn = true
  upgradesOff : def_.enableUpgrades = false
  stateApiId : state.apiId = def_.apiId
  stateSubscriptions : state.subscriptionsEnabled = config.subscriptionsOn
  stateExecutes : state.executes = (config.executionMode == .udg || config.executionMode == .supergraph)

/-- A request as the GraphQL layer gets it: no layer above it stamps a tunnel. -/
structure IncomingRequest extends Request where
  fresh : extensions.graphQlWsTunnel = none

/-- The transform of the request headers removes `Upgrade`. -/
def removesUpgrade (def_ : ApiDefinition B) : Bool :=
  def_.transformHeaders.any fun t => (t.request.remove.filterMap headerName).contains "upgrade"

/-- The request asks the forwarder for an upgrade. -/
def asksUpgrade (req : Request) : Bool := req.extensions.onUpgrade && (req.headers.get "upgrade").isSome

/-- The gateway forwards the request: no layer answers it, and the circuit is closed. -/
def forwards (c : Serde Num) (st : LayerState Num) (def_ : ApiDefinition B) (layers : LowerLayers)
    (req : Request) : Bool :=
  layers.admitted && match GraphQl.call c st req with
    | .error _ => false
    | .ok forwarded => (passDown def_ layers forwarded.req).isSome

/-- Every splice the request can lead to runs the relay of a tunnel that the GraphQL layer stamped. -/
def SplicesPoliced (c : Serde Num) (st : LayerState Num) (def_ : ApiDefinition B) (layers : LowerLayers)
    (req : Request) : Prop :=
  ∀ upstream relay headers, serve c st def_ layers upstream req = .delivered (.switched relay headers) →
    ∃ forwarded tunnel negotiated, GraphQl.call c st req = .ok forwarded ∧ forwarded.via = .tunnel ∧
      forwarded.req.extensions.graphQlWsTunnel = some tunnel ∧ relay = .policed tunnel negotiated

/-! ### What reaches the forwarder -/

section Reach

variable {c : Serde Num} {st : LayerState Num} {req : Request} {forwarded : Forwarded}

/-- What the GraphQL layer passes on is a handshake with a tunnel stamped on it, or the request with
its extensions and its `Upgrade` as they were. -/
theorem forwarded_cases (h : GraphQl.call c st req = .ok forwarded) :
    (isWebsocketHandshake req = true ∧ forwarded.via = .tunnel ∧
        ∃ tunnel, forwarded.req.extensions.graphQlWsTunnel = some tunnel) ∨
      (isWebsocketHandshake req = false ∧ forwarded.req.extensions = req.extensions ∧
        forwarded.req.headers.get "upgrade" = req.headers.get "upgrade") := by
  rcases call_ok h with ⟨hhandshake, h⟩ | ⟨hhandshake, ⟨p, caps, h⟩ | h⟩
  · obtain rfl := callHandshake_ok h
    exact .inl ⟨hhandshake, rfl, _, rfl⟩
  · obtain rfl := callPersisted_ok h
    refine .inr ⟨hhandshake, rfl, ?_⟩
    simp only [rewritePersisted]
    rw [HeaderMap.get_insert_of_ne (by decide), HeaderMap.get_insert_of_ne (by decide),
      HeaderMap.get_remove_of_ne (by decide)]
  · obtain ⟨x, -, rfl⟩ := callPlain_ok h
    exact .inr ⟨hhandshake, rfl, rfl⟩

/-- A name that may be set is not hop-by-hop, in whatever case it is written. -/
theorem headerName_notMem_hopByHop {name lower : String} (hname : headerName name = some lower)
    (hhop : ∀ x ∈ hopByHop, Text.eqIgnoreAsciiCase x name = false) : lower ∉ hopByHop := by
  intro hmem
  simp only [headerName] at hname
  split_ifs at hname
  have hlower : name.toList.map Char.toLower = lower.toList := by
    simpa [Text.toAsciiLowercase] using congrArg String.toList (Option.some.inj hname)
  have hfixed : ∀ x ∈ hopByHop, x.toList.map Char.toLower = x.toList := by decide
  have hsame := hhop lower hmem
  rw [Text.eqIgnoreAsciiCase, hlower, hfixed lower hmem] at hsame
  simp at hsame

/-- A valid transform sets no `Upgrade`. -/
theorem get_applyHeaderTransform {t : HeaderTransform} {direction : String} {headers : HeaderMap}
    (hvalid : t.validate direction = .ok ()) : (applyHeaderTransform t headers).get "upgrade" =
      if "upgrade" ∈ t.remove.filterMap headerName then none else headers.get "upgrade" := by
  rw [← HeaderMap.get_foldl_remove, applyHeaderTransform]
  generalize (t.remove.filterMap headerName).foldl HeaderMap.remove headers = h
  simp only [HeaderTransform.validate, Result.bind_eq_ok, List.forM_eq_forM, Result.forM_eq_ok,
    Result.ensure_eq_ok] at hvalid
  obtain ⟨-, hadd, -⟩ := hvalid
  generalize t.add = l at hadd
  induction l generalizing h with
  | nil => rfl
  | cons p l ih =>
    have hrest := fun h => ih h fun q hq => hadd q (List.mem_cons_of_mem _ hq)
    obtain ⟨-, -, -, hhop, -⟩ := hadd p (List.mem_cons_self ..)
    cases hname : headerName p.1 with
    | none => simpa [hname] using hrest h
    | some name =>
      have hne : "upgrade" ≠ name := by
        rintro rfl
        exact headerName_notMem_hopByHop hname (by simpa using hhop) (by decide)
      simp only [List.filterMap_cons, hname, Option.map_some, List.foldl_cons]
      rw [hrest, HeaderMap.get_insert_of_ne hne]

theorem transformBody_some {layers : LowerLayers} {req' : Request} (h : transformBody layers req = some req') :
    req'.extensions = req.extensions ∧ req'.headers.get "upgrade" = req.headers.get "upgrade" := by
  unfold transformBody at h
  split at h
  · cases h
  · obtain rfl := Option.some.inj h
    exact ⟨rfl, rfl⟩
  · obtain rfl := Option.some.inj h
    refine ⟨rfl, ?_⟩
    simp only [setFramingHeaders]
    rw [HeaderMap.get_insert_of_ne (by decide), HeaderMap.get_insert_of_ne (by decide),
      HeaderMap.get_remove_of_ne (by decide), HeaderMap.get_remove_of_ne (by decide)]

theorem get_stampApiId (apiId : String) : (stampApiId apiId req).headers.get "upgrade" = req.headers.get "upgrade" := by
  unfold stampApiId
  split
  · exact HeaderMap.get_insert_of_ne (by decide)
  · exact HeaderMap.get_remove_of_ne (by decide)

/-- The layers below keep the extensions, and `Upgrade` unless it is configured away. -/
theorem passDown_some {def_ : ApiDefinition B} {crates : Crates B} {layers : LowerLayers} {req' : Request}
    (hvalid : def_.validate crates = .ok ()) (h : passDown def_ layers req = some req') :
    req'.extensions = req.extensions ∧
      req'.headers.get "upgrade" = if removesUpgrade def_ then none else req.headers.get "upgrade" := by
  simp only [passDown, Option.bind_eq_bind, Option.bind_eq_some_iff] at h
  obtain ⟨r, hr, h⟩ := h
  split_ifs at h
  obtain rfl := Option.some.inj h
  obtain ⟨hextensions, hupgrade⟩ := transformBody_some hr
  refine ⟨hextensions, ?_⟩
  rw [get_stampApiId, hupgrade]
  unfold removesUpgrade
  cases htransforms : def_.transformHeaders with
  | none => simp [applyHeaderTransform]
  | some t =>
    have ht := validate_transformHeaders hvalid htransforms
    simp only [HeaderTransforms.validate, Result.bind_eq_ok] at ht
    obtain ⟨_, hrequest, -⟩ := ht
    simp only [Option.map_some, Option.getD_some, get_applyHeaderTransform hrequest, Option.any_some,
      List.contains_iff_mem]

end Reach

/-! ### The two predicates -/

section Splices

variable {c : Serde Num} {crates : Crates B} {layers : LowerLayers} {req : Request}

/-- A splice comes of a forwarded request that asks for an upgrade, with no transform against it. -/
theorem asksUpgrade_of_switched {api : SubscriptionApi B Num crates} {forwarded : Forwarded} {req' : Request}
    {upstream : Request → Exchange} {relay : Relay} {headers : HeaderMap}
    (hpass : passDown api.def_ layers forwarded.req = some req')
    (h : forward (UpstreamTarget.build api.def_) layers.admitted upstream req' = .switched relay headers) :
    layers.admitted = true ∧ asksUpgrade forwarded.req = true ∧ removesUpgrade api.def_ = false := by
  obtain ⟨hadmitted, -, hhandle, hheader, -⟩ := forward_switched h
  obtain ⟨hextensions, hupgrade⟩ := passDown_some api.valid hpass
  rw [hextensions] at hhandle
  cases hremoves : removesUpgrade api.def_ with
  | true => simp [hupgrade, hremoves] at hheader
  | false =>
    rw [hupgrade, hremoves] at hheader
    exact ⟨hadmitted, by simpa [asksUpgrade] using ⟨hhandle, hheader⟩, rfl⟩

theorem SubscriptionApi.upgradesEnabled (api : SubscriptionApi B Num crates) :
    (UpstreamTarget.build api.def_).upgradesEnabled = true := by
  simp [UpstreamTarget.build, ApiDefinition.graphqlSubscriptionsEnabled, api.configured, api.enabled,
    api.subscriptions]

/-- What `forwards` says of a request. -/
theorem forwards_iff {st : LayerState Num} {def_ : ApiDefinition B} :
    forwards c st def_ layers req = true ↔ layers.admitted = true ∧ ∃ forwarded req',
      GraphQl.call c st req = .ok forwarded ∧ passDown def_ layers forwarded.req = some req' := by
  unfold forwards
  cases hcall : GraphQl.call c st req with
  | error answer => simp
  | ok forwarded => simp [Option.isSome_iff_exists]

/-- A request that asks for an upgrade and is no handshake to the layer is spliced without a relay,
if it is forwarded and the upstream switches. -/
theorem copies_of_forwards (c : Serde Num) (api : SubscriptionApi B Num crates) (layers : LowerLayers)
    (hfresh : req.extensions.graphQlWsTunnel = none) (hasks : asksUpgrade req = true)
    (hhandshake : isWebsocketHandshake req = false) (hremoves : removesUpgrade api.def_ = false)
    (hforwards : forwards c api.state api.def_ layers req = true) : ∃ headers,
      serve c api.state api.def_ layers switchingUpstream req =
        .delivered (.switched .copyBidirectional headers) := by
  obtain ⟨hadmitted, forwarded, req', hcall, hpass⟩ := forwards_iff.1 hforwards
  obtain ⟨hextensions, hupgrade⟩ := passDown_some api.valid hpass
  rcases forwarded_cases hcall with ⟨hhandshake', -, -⟩ | ⟨-, hkept, hkeptUpgrade⟩
  · rw [hhandshake] at hhandshake'
    cases hhandshake'
  · simp only [asksUpgrade, Bool.and_eq_true] at hasks
    obtain ⟨headers, hheaders⟩ := forward_switching api.upgradesEnabled
      (show req'.extensions.onUpgrade = true by rw [hextensions, hkept]; exact hasks.1)
      (by rw [hupgrade, hremoves, hkeptUpgrade]; exact hasks.2) (by rw [hextensions, hkept]; exact hfresh)
    exact ⟨headers, by simp only [serve, hcall, hpass, hadmitted, hheaders]⟩

/-- **No unpoliced tunnel.** Whatever the upstream answers, a splice runs the relay of a tunnel the
GraphQL layer stamped, if and only if not: the request asks for an upgrade, the layer sees no handshake
in it, and the gateway forwards it with its `Upgrade`. -/
theorem splices_policed_iff (c : Serde Num) (api : SubscriptionApi B Num crates) (layers : LowerLayers)
    (req : IncomingRequest) :
    SplicesPoliced c api.state api.def_ layers req.toRequest ↔
      ¬ (asksUpgrade req.toRequest = true ∧ isWebsocketHandshake req.toRequest = false ∧
        removesUpgrade api.def_ = false ∧ forwards c api.state api.def_ layers req.toRequest = true) := by
  constructor
  · rintro h ⟨hasks, hhandshake, hremoves, hforwards⟩
    obtain ⟨headers, hserve⟩ := copies_of_forwards c api layers req.fresh hasks hhandshake hremoves hforwards
    obtain ⟨_, _, _, -, -, -, hrelay⟩ := h _ _ _ hserve
    cases hrelay
  · intro h upstream relay headers hserve
    unfold serve at hserve
    cases hcall : GraphQl.call c api.state req.toRequest with
    | error answer => rw [hcall] at hserve; cases hserve
    | ok forwarded =>
      rw [hcall] at hserve
      cases hpass : passDown api.def_ layers forwarded.req with
      | none => simp [hpass] at hserve
      | some req' =>
        simp only [hpass, Served.delivered.injEq] at hserve
        obtain ⟨hadmitted, hasks, hremoves⟩ := asksUpgrade_of_switched hpass hserve
        rcases forwarded_cases hcall with ⟨-, hvia, tunnel, htunnel⟩ | ⟨hhandshake, hextensions, hupgrade⟩
        · obtain ⟨-, -, -, -, ⟨t, negotiated, ht, hrelay⟩ | ⟨ht, -⟩⟩ := forward_switched hserve
          · rw [(passDown_some api.valid hpass).1] at ht
            exact ⟨forwarded, t, negotiated, rfl, hvia, ht, hrelay⟩
          · rw [(passDown_some api.valid hpass).1, htunnel] at ht
            cases ht
        · refine absurd ⟨?_, hhandshake, hremoves, ?_⟩ h
          · simpa only [asksUpgrade, hextensions, hupgrade] using hasks
          · exact forwards_iff.2 ⟨hadmitted, forwarded, req', hcall, hpass⟩

end Splices

/-! ### A handshake the layer does not see -/

/-- The schema has a `Subscription` root type. -/
def subscriptionCrates : Crates Unit := { plainCrates with graphqlBlocks := fun _ _ _ => .ok true }

/-- A proxied GraphQL API with subscriptions. -/
def subscriptionApi : SubscriptionApi Unit ℕ subscriptionCrates where
  config := { subscriptions := some {}, blocks := () }
  def_ :=
    { apiId := "gql", name := "gql", listenPath := "/gql/", targetUrl := "http://up.internal",
      graphql := some { subscriptions := some {}, blocks := () }, blocks := () }
  state := { helloApi with subscriptionsEnabled := true }
  valid := rfl
  configured := rfl
  enabled := rfl
  subscriptions := rfl
  upgradesOff := rfl
  stateApiId := rfl
  stateSubscriptions := rfl
  stateExecutes := rfl

/-- `GET /gql?query={hello}` with a WebSocket handshake whose `upgrade` token is in the second
`Connection` line. -/
def secondConnectionLine : IncomingRequest :=
  { getHello "" with
    headers := [("connection", headerValue "keep-alive"), ("connection", headerValue "Upgrade"),
      ("upgrade", headerValue "websocket"), ("sec-websocket-version", headerValue "13")]
    extensions := { onUpgrade := true }
    fresh := rfl }

/-- It passes as a plain query, and its connection is spliced with no relay. -/
theorem second_connection_line_splices :
    ¬ SplicesPoliced batchSerde subscriptionApi.state subscriptionApi.def_ {} secondConnectionLine.toRequest := by
  intro h
  obtain ⟨headers, hserve⟩ := copies_of_forwards batchSerde subscriptionApi {}
    secondConnectionLine.fresh (by decide +kernel) (by decide +kernel) (by decide +kernel) (by decide +kernel)
  obtain ⟨_, _, _, -, -, -, hrelay⟩ := h _ _ _ hserve
  cases hrelay

end G2way.Proxy
