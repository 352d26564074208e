import G2way.Core.ApiDefinition
import G2way.Middleware.Context

/-!
# The forwarder

`forward`, from `g2-proxy/src/forward.rs`, with the header preparation of
`rewrite.rs`: what is sent upstream, and what becomes of the upstream's answer.

A connection upgrade is passed through when the API opted in, "the client asked
(an `Upgrade` header), and the client connection can actually switch protocols
(hyper stamped an `OnUpgrade` extension)". After the upstream's `101` a task
splices the two connections: it runs the policed relay of the `GraphQlWsTunnel`
the request carried, or else copies bytes both ways.

The mapping of paths, the rotation over addresses and the clock are left to the
`Exchange` the attempts end with.
-/

namespace G2way.Proxy

open G2way.Core G2way.Lib G2way.Middleware

variable {B : Type}

/-! ### The target -/

/-- `UpstreamTarget`, as far as `forward` reads it. -/
structure UpstreamTarget where
  apiId : String
  preserveHostHeader : Bool
  methodOverride : Option String
  retries : ℕ
  /-- `Connection: Upgrade` requests are tunneled through to the upstream. -/
  upgradesEnabled : Bool
  http2 : Bool
  deriving DecidableEq, Repr

/-- `UpstreamTarget::build`: "GraphQL subscriptions imply upgrade capability". -/
def UpstreamTarget.build (def_ : ApiDefinition B) : UpstreamTarget where
  apiId := def_.apiId
  preserveHostHeader := def_.preserveHostHeader
  methodOverride := def_.transformMethod.map Text.toAsciiUppercase
  retries := def_.upstreamRetries
  upgradesEnabled := def_.enableUpgrades || def_.graphqlSubscriptionsEnabled
  http2 := def_.upstreamHttp2

/-! ### Headers -/

/-- `strip_hop_by_hop_headers`: the names the `Connection` lines list, and the fixed ones. -/
def stripHopByHopHeaders (headers : HeaderMap) : HeaderMap :=
  let named := ((headers.getAll "connection").filterMap HeaderValue.toStr).flatMap fun v =>
    (Text.split ',' v).filterMap fun name => headerName (Text.trim name)
  (named ++ hopByHop).foldl HeaderMap.remove headers

/-- `apply_forwarded_headers`. -/
def applyForwardedHeaders (headers : HeaderMap) (clientIp : String) (originalHost : Option HeaderValue)
    (tls : Bool) : HeaderMap :=
  let chain := match headers.getStr "x-forwarded-for" with
    | some existing => existing ++ ", " ++ clientIp
    | none => clientIp
  let headers := headers.insert "x-forwarded-for" (headerValue chain)
  let headers := match headers.get "x-forwarded-host", originalHost with
    | none, some host => headers.insert "x-forwarded-host" host
    | _, _ => headers
  match headers.get "x-forwarded-proto" with
  | none => headers.insert "x-forwarded-proto" (headerValue (if tls then "https" else "http"))
  | some _ => headers

/-- `prepare_upstream_headers`. -/
def prepareUpstreamHeaders (headers : HeaderMap) (target : UpstreamTarget) (clientIp : String) (tls : Bool) :
    HeaderMap :=
  let originalHost := headers.get "host"
  let headers := stripHopByHopHeaders headers
  let headers := if target.preserveHostHeader then headers else headers.remove "host"
  applyForwardedHeaders headers clientIp originalHost tls

/-! ### The exchange -/

/-- How the attempts ended. -/
inductive Exchange where
  | response (status : ℕ) (headers : HeaderMap)
  /-- The request's body blew its size limit mid-stream. -/
  | requestTooLarge
  | clientError
  | badUri
  | elapsed
  deriving DecidableEq, Repr

/-- What the task that splices the two connections runs. -/
inductive Relay where
  /-- `tunnel.run`, with the subprotocol the upstream chose. -/
  | policed (tunnel : GraphQlWsTunnel) (negotiated : Option HeaderValue)
  /-- `copy_bidirectional`. -/
  | copyBidirectional
  deriving DecidableEq, Repr

/-- What becomes of a request. -/
inductive Delivered where
  /-- An answer the gateway makes itself. -/
  | rejected (r : Rejection)
  /-- The upstream's answer. -/
  | upstream (status : ℕ) (headers : HeaderMap)
  /-- A `101`; the connections are spliced. -/
  | switched (relay : Relay) (headers : HeaderMap)
  deriving DecidableEq, Repr

/-- `upgrade_response`. -/
def upgradeResponse (tunnel : Option GraphQlWsTunnel) (headers : HeaderMap) : Delivered :=
  let negotiated := headers.get "sec-websocket-protocol"
  let stripped := (stripHopByHopHeaders headers).insert "connection" (headerValue "upgrade")
  let answered := match headers.get "upgrade" with
    | some protocol => stripped.insert "upgrade" protocol
    | none => stripped
  match tunnel with
  | some tunnel =>
    if tunnel.accepts negotiated then .switched (.policed tunnel negotiated) answered
    else .rejected ⟨502, "upstream negotiated an unsupported WebSocket subprotocol", none⟩
  | none => .switched .copyBidirectional answered

/-- The upgrade a request asks for: the protocol, and the tunnel it carries. -/
def upgradeOf (target : UpstreamTarget) (req : Request) : Option (HeaderValue × Option GraphQlWsTunnel) :=
  if target.upgradesEnabled ∧ req.extensions.onUpgrade then
    (req.headers.get "upgrade").map fun protocol => (protocol, req.extensions.graphQlWsTunnel)
  else none

/-- `te: trailers` survives the strip on the way to an HTTP/2 upstream. -/
def keepsTe (target : UpstreamTarget) (req : Request) : Bool :=
  target.http2 && (req.headers.getStr "te").any fun value =>
    (Text.split ',' value).any fun token => Text.eqIgnoreAsciiCase (Text.trim token) "trailers"

/-- The request `forward` sends. -/
def upstreamRequest (target : UpstreamTarget) (req : Request) : Request :=
  let clientIp := req.extensions.clientAddr.getD "0.0.0.0"
  let tls := req.extensions.connection.any (·.tls)
  let headers := prepareUpstreamHeaders req.headers target clientIp tls
  let headers := if keepsTe target req then headers.insert "te" (headerValue "trailers") else headers
  let headers := match upgradeOf target req with
    | some (protocol, _) => (headers.insert "connection" (headerValue "upgrade")).insert "upgrade" protocol
    | none => headers
  { req with method := target.methodOverride.getD req.method, headers := headers }

/-- `forward`: `admitted` is what the circuit breaker says. -/
def forward (target : UpstreamTarget) (admitted : Bool) (upstream : Request → Exchange) (req : Request) :
    Delivered :=
  if admitted then
    match upstream (upstreamRequest target req) with
    | .response status headers =>
      if status = 101 then
        match upgradeOf target req with
        | some (_, tunnel) => upgradeResponse tunnel headers
        | none => .rejected ⟨502, "unexpected upgrade response from upstream", none⟩
      else .upstream status (stripHopByHopHeaders headers)
    | .requestTooLarge => .rejected ⟨413, "request body too large", none⟩
    | .clientError => .rejected ⟨502, "upstream request failed", none⟩
    | .badUri => .rejected ⟨502, "invalid upstream request", none⟩
    | .elapsed => .rejected ⟨504, "upstream request timed out", none⟩
  else .rejected ⟨503, "upstream circuit open", none⟩

/-! ### When the connections are spliced -/

section Splice

variable {target : UpstreamTarget} {admitted : Bool} {upstream : Request → Exchange} {req : Request}
  {relay : Relay} {headers : HeaderMap}

/-- An upgrade that is passed through runs the tunnel it carries, or none. -/
theorem upgradeResponse_switched {tunnel : Option GraphQlWsTunnel} {answer : HeaderMap}
    (h : upgradeResponse tunnel answer = .switched relay headers) :
    (∃ t, tunnel = some t ∧ relay = .policed t (answer.get "sec-websocket-protocol")) ∨
      (tunnel = none ∧ relay = .copyBidirectional) := by
  unfold upgradeResponse at h
  cases tunnel with
  | none =>
    obtain ⟨rfl, -⟩ := Delivered.switched.inj h
    exact .inr ⟨rfl, rfl⟩
  | some t =>
    simp only at h
    split_ifs at h with haccepts
    obtain ⟨rfl, -⟩ := Delivered.switched.inj h
    exact .inl ⟨t, rfl, rfl⟩

/-- **A splice comes of an upgrade.** The forwarder splices only for a request with an `Upgrade`
header and a handle on an API that opted in, and the relay is that of the tunnel the request carries. -/
theorem forward_switched (h : forward target admitted upstream req = .switched relay headers) :
    admitted = true ∧ target.upgradesEnabled = true ∧ req.extensions.onUpgrade = true ∧
      (req.headers.get "upgrade").isSome = true ∧
      ((∃ t negotiated, req.extensions.graphQlWsTunnel = some t ∧ relay = .policed t negotiated) ∨
        (req.extensions.graphQlWsTunnel = none ∧ relay = .copyBidirectional)) := by
  unfold forward at h
  split_ifs at h with hadmitted
  refine ⟨hadmitted, ?_⟩
  split at h
  case h_1 status answer _ =>
    split_ifs at h with hstatus
    split at h
    case h_1 protocol tunnel hupgrade =>
      simp only [upgradeOf] at hupgrade
      split_ifs at hupgrade with hcan
      simp only [Option.map_eq_some_iff, Prod.mk.injEq] at hupgrade
      obtain ⟨_, hprotocol, rfl, rfl⟩ := hupgrade
      refine ⟨hcan.1, hcan.2, by rw [hprotocol]; rfl, ?_⟩
      rcases upgradeResponse_switched h with ⟨t, ht, hrelay⟩ | hnone
      · exact .inl ⟨t, _, ht, hrelay⟩
      · exact .inr hnone
    case h_2 => cases h
  all_goals cases h

/-- An upstream that switches whatever it is sent, with no subprotocol. -/
def switchingUpstream (_ : Request) : Exchange := .response 101 []

/-- Conversely, an upstream can always complete the upgrade such a request asks for. -/
theorem forward_switching (hupgrades : target.upgradesEnabled = true) (hhandle : req.extensions.onUpgrade = true)
    (hheader : (req.headers.get "upgrade").isSome = true) (htunnel : req.extensions.graphQlWsTunnel = none) :
    ∃ headers, forward target true switchingUpstream req = .switched .copyBidirectional headers := by
  obtain ⟨protocol, hprotocol⟩ := Option.isSome_iff_exists.1 hheader
  have hupgrade : upgradeOf target req = some (protocol, none) := by
    simp [upgradeOf, hupgrades, hhandle, hprotocol, htunnel]
  exact ⟨_, by simp [forward, switchingUpstream, hupgrade, upgradeResponse]; rfl⟩

end Splice

end G2way.Proxy
