import G2way.GraphQl.Layer
import G2way.Lib.Service

/-!
# The subscription relay

`g2-middleware/src/graphql_ws.rs`: "the gateway **terminates** the
graphql-over-WebSocket subprotocols rather than tunneling opaque bytes: every
client `subscribe` (graphql-transport-ws) / `start` (legacy graphql-ws) payload is
parsed with apollo-compiler against the API's current schema and run through the
same protection pipeline as an HTTP query". Anything the gateway cannot police
"ends the connection instead of passing through unchecked".

## The model

The relay is a service over events: a leg delivers a message, fails or ends, or
the schema is swapped by the sync task. The `select!` of `GraphQlWsTunnel::run`
takes them in any order, so a list of events is a run of the tunnel. An event of a
leg says also whether the send that answers it succeeds. What the relay does with
an event is a list of sends, flushes and close handshakes; the pongs of the frame
layer are tungstenite's own, on the leg that was pinged, and go out with a flush.

## What is proved

`policeClientText_forward_iff` says when a text is relayed, `serve_upstream` what can be
sent upstream at all, and `serve_closed` that a closed relay sends nothing. From
them `relay_polices`: along every run, what is sent upstream is the client's own
text, a control message of the vocabulary or an operation that was admitted against
the schema in force at that moment; a denied operation is answered by one error
with its id; and after a violation nothing is sent upstream.
-/

namespace G2way.Middleware.GraphQlWs

open G2way.Core G2way.Lib G2way.GraphQl

variable {Num : Type}

/-! ### Vocabularies -/

/-- Which message vocabulary the relay polices. -/
inductive Vocab where
  /-- graphql-transport-ws only. -/
  | modern
  /-- Legacy graphql-ws only. -/
  | legacy
  /-- Both: the upstream echoed no subprotocol. -/
  | union
  deriving DecidableEq, Repr

/-- The vocabulary that the upstream's `Sec-WebSocket-Protocol` names. -/
def Vocab.negotiated (value : Option HeaderValue) : Vocab :=
  match (value.bind HeaderValue.toStr).map Text.trim with
  | some "graphql-transport-ws" => .modern
  | some "graphql-ws" => .legacy
  | _ => .union

/-- The error-message dialect for one policed operation. -/
inductive ErrorStyle where
  | modern
  | legacy
  deriving DecidableEq, Repr

/-- What to do with one client text frame. -/
inductive Action where
  /-- Relay the original text upstream. -/
  | forward (operation : Bool)
  /-- Send this protocol `error` message back. -/
  | reply (text : String)
  /-- Protocol violation: close both sides. -/
  | close (notice : Option String) (code : ℕ) (reason : String)
  deriving DecidableEq, Repr

/-- The parts of a client message the gateway reads. -/
structure Inbound (Num : Type) where
  /-- `type`. -/
  kind : String
  id : Option (Json Num)
  payload : Option (Json Num)

/-- `Option<Value>`. -/
def optionCanonical (c : Serde Num) : Json Literal → Option (Option (Json Num))
  | .null => some none
  | j => (c.value j).map some

/-- The derived `Deserialize` of a message. -/
def inboundOf (c : Serde Num) : Json Literal → Option (Inbound Num)
  | .object members => do
    let kind ← requiredMember stringOf members "type"
    let id ← readMember (optionCanonical c) members "id"
    let payload ← readMember (optionCanonical c) members "payload"
    return ⟨kind, id, payload⟩
  | .array [kind] => do
    let kind ← stringOf kind
    return ⟨kind, none, none⟩
  | .array [kind, id] => do
    let kind ← stringOf kind
    let id ← optionCanonical c id
    return ⟨kind, id, none⟩
  | .array [kind, id, payload] => do
    let kind ← stringOf kind
    let id ← optionCanonical c id
    let payload ← optionCanonical c payload
    return ⟨kind, id, payload⟩
  | _ => none

/-- `serde_json::from_str::<Inbound>`. -/
def inbound (c : Serde Num) (text : String) : Option (Inbound Num) := (c.parse (Text.utf8 text)).bind (inboundOf c)

/-- The kinds of graphql-transport-ws. -/
def modernKinds : List String := ["connection_init", "ping", "pong", "subscribe", "complete"]

/-- The kinds of legacy graphql-ws. -/
def legacyKinds : List String := ["connection_init", "start", "stop", "connection_terminate"]

/-- The kind is one of the vocabulary. -/
def Vocab.knows : Vocab → String → Bool
  | .modern, kind => modernKinds.contains kind
  | .legacy, kind => legacyKinds.contains kind
  | .union, kind => modernKinds.contains kind || legacyKinds.contains kind

/-- The dialect of a policed kind; the other kinds are control messages. -/
def styleOf : String → Option ErrorStyle
  | "subscribe" => some .modern
  | "start" => some .legacy
  | _ => none

/-! ### Policing -/

/-- `error_message`; an object is written with its members in the order of their keys. -/
def errorMessage (c : Serde Num) (style : ErrorStyle) (id : Option (Json Num)) (messages : List String) : String :=
  let payload : Json Num :=
    match style with
    | .modern => .array (messages.map fun m => .object [("message", .string m)])
    | .legacy => .object [("message", .string (String.intercalate "; " messages))]
  Json.toText c.display (.object [("id", id.getD .null), ("payload", payload), ("type", .string "error")])

/-- `violation_close`. -/
def violationClose (c : Serde Num) (vocab : Vocab) (reason : String) : Action :=
  match vocab with
  | .legacy =>
    .close (some (Json.toText c.display
      (.object [("payload", .object [("message", .string reason)]), ("type", .string "connection_error")])))
      1002 reason
  | _ => .close none 4400 reason

/-- `ExecutableDocument::parse_and_validate` against a schema, with the messages of its diagnostics. -/
abbrev Schema := String → Except (List String) ValidDocument

/-- The query of a payload. -/
def queryOf (payload : Option (Json Num)) : Option String :=
  match payload with
  | some (.object members) =>
    match members.lookup "query" with
    | some (.string query) => some query
    | _ => none
  | _ => none

/-- The settings of a tunnel: the API's, the grants of the handshake's key, and the vocabulary. -/
structure Tunnel where
  shared : GraphQlShared
  grants : Option ApiAccess
  vocab : Vocab

/-- `police_operation`. -/
def policeOperation (c : Serde Num) (t : Tunnel) (schema : Schema) (style : ErrorStyle) (id : Option (Json Num))
    (payload : Option (Json Num)) : Action :=
  match (queryOf payload).filter notBlank with
  | none => .reply (errorMessage c style id ["the request is missing a GraphQL query"])
  | some query =>
    match schema query with
    | .error messages => .reply (errorMessage c style id messages)
    | .ok doc =>
      match checkDocument t.shared t.grants doc.toDocument with
      | .ok () => .forward true
      | .error violation => .reply (errorMessage c style id [violation.message])

/-- `police_client_text`. -/
def policeClientText (c : Serde Num) (t : Tunnel) (schema : Schema) (text : String) : Action :=
  match inbound c text with
  | none => violationClose c t.vocab "invalid message: not a graphql-ws JSON object"
  | some message =>
    if !t.vocab.knows message.kind then violationClose c t.vocab ("unknown message type: " ++ message.kind)
    else
      match styleOf message.kind with
      | none => .forward false
      | some style =>
        if message.id.isNone then violationClose c t.vocab (message.kind ++ " message without an id")
        else policeOperation c t schema style message.id message.payload

/-! ### The relay -/

/-- The code and the reason of a close frame. -/
structure CloseFrame where
  code : ℕ
  reason : String
  deriving DecidableEq, Repr

/-- A message of the frame layer. -/
inductive Message where
  | text (text : String)
  | binary (bytes : List UInt8)
  | ping (bytes : List UInt8)
  | pong (bytes : List UInt8)
  | close (frame : Option CloseFrame)
  /-- A raw frame. -/
  | raw
  deriving DecidableEq, Repr

/-- What a leg delivers. -/
inductive Delivery where
  | message (message : Message)
  | failed
  | ended
  deriving DecidableEq, Repr

/-- What happens to a tunnel. -/
inductive Event where
  /-- The client leg delivers; whether the send that answers it succeeds. -/
  | client (delivery : Delivery) (sent : Bool)
  /-- The upstream leg delivers. -/
  | upstream (delivery : Delivery) (sent : Bool)
  /-- The schema is swapped. -/
  | swap (schema : Schema)

/-- What the relay does. -/
inductive Act where
  /-- `upstream_tx.send`. -/
  | upstream (message : Message)
  /-- `client_tx.send`. -/
  | client (message : Message)
  /-- `upstream_tx.flush`. -/
  | flushUpstream
  /-- `client_tx.flush`. -/
  | flushClient
  /-- `client_tx.close`, `upstream_tx.close`: the close handshakes, "for whichever side is still up". -/
  | closeLegs
  deriving DecidableEq, Repr

/-- The relay. -/
structure Relay extends Tunnel where
  schema : Schema
  /-- The loop has ended. -/
  closed : Bool := false
  allowed : ℕ := 0
  denied : ℕ := 0

namespace Relay

/-- The loop ends. -/
def stop (r : Relay) (acts : List Act) : List Act × Relay := (acts ++ [.closeLegs], { r with closed := true })

/-- The loop goes on, unless the send failed. -/
def continueIf (r : Relay) (sent : Bool) (acts : List Act) : List Act × Relay :=
  if sent then (acts, r) else r.stop acts

/-- A text or a binary message of the client, with what is to be done with it. -/
def perform (r : Relay) (message : Message) (sent : Bool) : Action → List Act × Relay
  | .forward operation =>
    { r with allowed := if operation then r.allowed + 1 else r.allowed }.continueIf sent [.upstream message]
  | .reply text => { r with denied := r.denied + 1 }.continueIf sent [.client (.text text)]
  | .close notice code reason =>
    r.stop ((notice.map fun n => .client (.text n)).toList ++
      [.client (.close (some ⟨code, reason⟩)), .upstream (.close (some ⟨code, reason⟩))])

/-- The client's arm of the loop. -/
def onClient (c : Serde Num) (r : Relay) (sent : Bool) : Delivery → List Act × Relay
  | .message (.text text) => r.perform (.text text) sent (policeClientText c r.toTunnel r.schema text)
  | .message (.binary bytes) =>
    r.perform (.binary bytes) sent (violationClose c r.vocab "binary frames are not supported")
  | .message (.ping _) => ([.flushClient], r)
  | .message (.pong _) => ([], r)
  | .message .raw => ([], r)
  | .message (.close frame) => r.stop [.upstream (.close frame)]
  | .failed => r.stop [.upstream (.close none)]
  | .ended => r.stop [.upstream (.close none)]

/-- The upstream's arm of the loop: "everything else … is the upstream's own data: relayed verbatim,
never parsed". -/
def onUpstream (r : Relay) (sent : Bool) : Delivery → List Act × Relay
  | .message (.ping _) => ([.flushUpstream], r)
  | .message (.pong _) => ([], r)
  | .message .raw => ([], r)
  | .message (.close frame) => r.stop [.client (.close frame)]
  | .message (.text text) => r.continueIf sent [.client (.text text)]
  | .message (.binary bytes) => r.continueIf sent [.client (.binary bytes)]
  | .failed => r.stop [.client (.close none)]
  | .ended => r.stop [.client (.close none)]

/-- One turn of `GraphQlWsTunnel::run`. -/
def serve (c : Serde Num) (r : Relay) : Event → List Act × Relay
  | .client delivery sent => if r.closed then ([], r) else r.onClient c sent delivery
  | .upstream delivery sent => if r.closed then ([], r) else r.onUpstream sent delivery
  | .swap schema => ([], { r with schema })

end Relay

/-! ### What a text is to the gateway -/

/-- A control message of the vocabulary. -/
def IsControl (c : Serde Num) (vocab : Vocab) (text : String) : Prop :=
  ∃ m, inbound c text = some m ∧ vocab.knows m.kind = true ∧ styleOf m.kind = none

/-- A `subscribe` or `start` of the vocabulary, with its id. -/
structure IsOperation (c : Serde Num) (vocab : Vocab) (text : String) (m : Inbound Num) (id : Json Num) : Prop where
  read : inbound c text = some m
  known : vocab.knows m.kind = true
  policed : (styleOf m.kind).isSome
  hasId : m.id = some id

/-- An operation whose query parses, validates against the schema and passes the check. -/
def Admitted (c : Serde Num) (t : Tunnel) (schema : Schema) (text : String) : Prop :=
  ∃ m id query doc, IsOperation c t.vocab text m id ∧ (queryOf m.payload).filter notBlank = some query ∧
    schema query = .ok doc ∧ checkDocument t.shared t.grants doc.toDocument = .ok ()

/-- What the gateway cannot police: a binary frame, a text that is no message, an unknown kind, an
operation without an id. -/
def Violates (c : Serde Num) (vocab : Vocab) : Delivery → Prop
  | .message (.binary _) => True
  | .message (.text text) =>
    inbound c text = none ∨
      ∃ m, inbound c text = some m ∧ (vocab.knows m.kind = false ∨ (styleOf m.kind).isSome ∧ m.id = none)
  | _ => False

/-- The reply is an `error` with that id. -/
def CarriesId (c : Serde Num) (id : Json Num) (reply : String) : Prop :=
  ∃ payload, reply = Json.toText c.display (.object [("id", id), ("payload", payload), ("type", .string "error")])

section

variable {c : Serde Num} {t : Tunnel} {schema : Schema} {text : String} {m : Inbound Num} {id : Json Num}

theorem errorMessage_carriesId (c : Serde Num) (style : ErrorStyle) (id : Json Num) (messages : List String) :
    CarriesId c id (errorMessage c style (some id) messages) := by
  cases style with
  | modern => exact ⟨_, rfl⟩
  | legacy => exact ⟨_, rfl⟩

theorem admitted_iff (hop : IsOperation c t.vocab text m id) :
    Admitted c t schema text ↔ ∃ query doc, (queryOf m.payload).filter notBlank = some query ∧
      schema query = .ok doc ∧ checkDocument t.shared t.grants doc.toDocument = .ok () := by
  constructor
  · rintro ⟨m', id', query, doc, hop', h⟩
    obtain rfl : m' = m := Option.some.inj (hop'.read.symm.trans hop.read)
    exact ⟨query, doc, h⟩
  · rintro ⟨query, doc, h⟩
    exact ⟨m, id, query, doc, hop, h⟩

/-- An operation is let through exactly if it is admitted, and refused with its id otherwise. -/
theorem policeOperation_cases (schema : Schema) (hop : IsOperation c t.vocab text m id) (style : ErrorStyle) :
    (Admitted c t schema text ∧ policeOperation c t schema style m.id m.payload = .forward true) ∨
    (¬ Admitted c t schema text ∧
      ∃ reply, CarriesId c id reply ∧ policeOperation c t schema style m.id m.payload = .reply reply) := by
  have hreply := errorMessage_carriesId c style id
  rw [admitted_iff hop, policeOperation, hop.hasId]
  cases hquery : (queryOf m.payload).filter notBlank with
  | none =>
    refine .inr ⟨?_, _, hreply _, rfl⟩
    rintro ⟨query, doc, hsome, _⟩
    cases hsome
  | some query =>
    dsimp only
    cases hdoc : schema query with
    | error messages =>
      refine .inr ⟨?_, _, hreply messages, rfl⟩
      rintro ⟨query', doc, hsome, hok, _⟩
      cases hsome
      rw [hdoc] at hok
      cases hok
    | ok doc =>
      dsimp only
      cases hcheck : checkDocument t.shared t.grants doc.toDocument with
      | ok u => exact .inl ⟨⟨query, doc, rfl, hdoc, hcheck⟩, rfl⟩
      | error violation =>
        refine .inr ⟨?_, _, hreply [violation.message], rfl⟩
        rintro ⟨query', doc', hsome, hok, hpass⟩
        cases hsome
        rw [hdoc] at hok
        cases hok
        rw [hcheck] at hpass
        cases hpass

/-- A text is a violation, a control message or an operation. -/
theorem text_cases (c : Serde Num) (vocab : Vocab) (text : String) :
    Violates c vocab (.message (.text text)) ∨ IsControl c vocab text ∨ ∃ m id, IsOperation c vocab text m id := by
  cases hread : inbound c text with
  | none => exact .inl (.inl hread)
  | some m =>
    cases hknown : vocab.knows m.kind with
    | false => exact .inl (.inr ⟨m, hread, .inl hknown⟩)
    | true =>
      cases hstyle : styleOf m.kind with
      | none => exact .inr (.inl ⟨m, hread, hknown, hstyle⟩)
      | some style =>
        have hpoliced : (styleOf m.kind).isSome = true := by rw [hstyle]; rfl
        cases hid : m.id with
        | none => exact .inl (.inr ⟨m, hread, .inr ⟨hpoliced, hid⟩⟩)
        | some id => exact .inr (.inr ⟨m, id, hread, hknown, hpoliced, hid⟩)

theorem policeClientText_of_violates (schema : Schema) (h : Violates c t.vocab (.message (.text text))) :
    ∃ reason, policeClientText c t schema text = violationClose c t.vocab reason := by
  unfold policeClientText
  rcases h with hread | ⟨m, hread, hknown | ⟨hpoliced, hid⟩⟩
  · exact ⟨_, by rw [hread]⟩
  · exact ⟨_, by simp only [hread, hknown]; rfl⟩
  · obtain ⟨style, hstyle⟩ := Option.isSome_iff_exists.1 hpoliced
    cases hknown : t.vocab.knows m.kind with
    | false => exact ⟨_, by simp only [hread, hknown]; rfl⟩
    | true => exact ⟨_, by simp only [hread, hknown, hstyle, hid]; rfl⟩

theorem policeClientText_of_control (schema : Schema) (h : IsControl c t.vocab text) :
    policeClientText c t schema text = .forward false := by
  obtain ⟨m, hread, hknown, hstyle⟩ := h
  simp only [policeClientText, hread, hknown, hstyle]
  rfl

theorem policeClientText_of_operation (schema : Schema) (hop : IsOperation c t.vocab text m id) :
    ∃ style, policeClientText c t schema text = policeOperation c t schema style m.id m.payload := by
  obtain ⟨style, hstyle⟩ := Option.isSome_iff_exists.1 hop.policed
  refine ⟨style, ?_⟩
  simp only [policeClientText, hop.read, hop.known, hstyle, hop.hasId]
  rfl

/-- A violation is never relayed. -/
theorem violationClose_ne_forward (c : Serde Num) (vocab : Vocab) (reason : String) (operation : Bool) :
    violationClose c vocab reason ≠ .forward operation := by
  unfold violationClose
  split
  · exact nofun
  · exact nofun

/-- **What is relayed**: the control messages and the admitted operations. -/
theorem policeClientText_forward_iff :
    (∃ operation, policeClientText c t schema text = .forward operation) ↔
      IsControl c t.vocab text ∨ Admitted c t schema text := by
  constructor
  · rintro ⟨operation, h⟩
    rcases text_cases c t.vocab text with hviolates | hcontrol | ⟨m, id, hop⟩
    · obtain ⟨reason, hclose⟩ := policeClientText_of_violates schema hviolates
      exact absurd (hclose.symm.trans h) (violationClose_ne_forward c t.vocab reason operation)
    · exact .inl hcontrol
    · obtain ⟨style, haction⟩ := policeClientText_of_operation schema hop
      rcases policeOperation_cases schema hop style with ⟨hadmitted, _⟩ | ⟨_, reply, _, hreply⟩
      · exact .inr hadmitted
      · rw [haction, hreply] at h
        cases h
  · rintro (hcontrol | hadmitted)
    · exact ⟨false, policeClientText_of_control schema hcontrol⟩
    · obtain ⟨m, id, _, _, hop, _⟩ := id hadmitted
      obtain ⟨style, haction⟩ := policeClientText_of_operation schema hop
      rcases policeOperation_cases schema hop style with ⟨_, hforward⟩ | ⟨hdenied, _⟩
      · exact ⟨true, haction.trans hforward⟩
      · exact absurd hadmitted hdenied

end

/-! ### What one event does -/

namespace Relay

variable {c : Serde Num} {r : Relay} {message : Message}

theorem stop_fst (r : Relay) (acts : List Act) : (r.stop acts).1 = acts ++ [.closeLegs] := rfl

theorem continueIf_fst (r : Relay) (sent : Bool) (acts : List Act) :
    (r.continueIf sent acts).1 = acts ++ if sent then [] else [.closeLegs] := by
  cases sent with
  | true => exact (List.append_nil acts).symm
  | false => rfl

theorem upstream_mem_continueIf {sent : Bool} {acts : List Act} (h : .upstream message ∈ (r.continueIf sent acts).1) :
    .upstream message ∈ acts := by
  rw [continueIf_fst, List.mem_append] at h
  rcases h with h | h
  · exact h
  · cases sent with
    | true => cases h
    | false => simp at h

/-- Upstream goes what the policing lets through, or the close frame with which the loop ends. -/
theorem upstream_mem_perform {m : Message} {sent : Bool} {action : Action}
    (h : .upstream message ∈ (r.perform m sent action).1) :
    (∃ operation, action = .forward operation ∧ message = m) ∨
      ∃ frame, message = .close frame ∧ (r.perform m sent action).2.closed = true := by
  cases action with
  | forward operation =>
    have hmem := upstream_mem_continueIf h
    rw [List.mem_singleton] at hmem
    exact .inl ⟨operation, rfl, Act.upstream.inj hmem⟩
  | reply text =>
    have hmem := upstream_mem_continueIf h
    rw [List.mem_singleton] at hmem
    cases hmem
  | close notice code reason =>
    refine .inr ⟨some ⟨code, reason⟩, ?_, rfl⟩
    rw [perform, stop_fst] at h
    cases notice with
    | none => simpa using h
    | some notice => simpa using h

/-- A violation ends the loop. -/
theorem perform_violationClose (r : Relay) (m : Message) (sent : Bool) (reason : String) :
    (r.perform m sent (violationClose c r.vocab reason)).2.closed = true := by
  unfold violationClose
  split
  · rfl
  · rfl

theorem upstream_not_mem_onUpstream {sent : Bool} {delivery : Delivery} :
    .upstream message ∉ (r.onUpstream sent delivery).1 := by
  intro h
  cases delivery with
  | message m =>
    cases m with
    | text text => simpa using upstream_mem_continueIf h
    | binary bytes => simpa using upstream_mem_continueIf h
    | _ => simp [onUpstream, stop] at h
  | failed => simp [onUpstream, stop] at h
  | ended => simp [onUpstream, stop] at h

theorem upstream_mem_onClient {sent : Bool} {delivery : Delivery}
    (h : .upstream message ∈ (r.onClient c sent delivery).1) :
    (∃ frame, message = .close frame ∧ (r.onClient c sent delivery).2.closed = true) ∨
    ∃ text, delivery = .message (.text text) ∧ message = .text text ∧
      (IsControl c r.vocab text ∨ Admitted c r.toTunnel r.schema text) := by
  cases delivery with
  | message m =>
    cases m with
    | text text =>
      rcases upstream_mem_perform h with ⟨operation, haction, rfl⟩ | hclose
      · exact .inr ⟨text, rfl, rfl, policeClientText_forward_iff.1 ⟨operation, haction⟩⟩
      · exact .inl hclose
    | binary bytes =>
      rcases upstream_mem_perform h with ⟨operation, haction, _⟩ | hclose
      · exact absurd haction (violationClose_ne_forward c r.vocab _ operation)
      · exact .inl hclose
    | close frame =>
      refine .inl ⟨frame, ?_, rfl⟩
      simpa [onClient, stop] using h
    | _ => simp [onClient] at h
  | failed =>
    refine .inl ⟨none, ?_, rfl⟩
    simpa [onClient, stop] using h
  | ended =>
    refine .inl ⟨none, ?_, rfl⟩
    simpa [onClient, stop] using h

/-- What cannot be policed closes. -/
theorem onClient_violates {delivery : Delivery} (h : Violates c r.vocab delivery) (sent : Bool) :
    ∃ m reason, r.onClient c sent delivery = r.perform m sent (violationClose c r.vocab reason) := by
  cases delivery with
  | message m =>
    cases m with
    | text text =>
      obtain ⟨reason, hclose⟩ := policeClientText_of_violates r.schema h
      exact ⟨.text text, reason, by rw [onClient, hclose]⟩
    | binary bytes => exact ⟨.binary bytes, _, rfl⟩
    | _ => cases h
  | failed => cases h
  | ended => cases h

/-- A denied operation is answered with its id. -/
theorem onClient_denied {text : String} {m : Inbound Num} {id : Json Num} (hop : IsOperation c r.vocab text m id)
    (hdenied : ¬ Admitted c r.toTunnel r.schema text) (sent : Bool) :
    ∃ reply, CarriesId c id reply ∧
      (r.onClient c sent (.message (.text text))).1 = .client (.text reply) :: if sent then [] else [.closeLegs] := by
  obtain ⟨style, haction⟩ := policeClientText_of_operation r.schema hop
  rcases policeOperation_cases r.schema hop style with ⟨hadmitted, _⟩ | ⟨_, reply, hreply, hsend⟩
  · exact absurd hadmitted hdenied
  · refine ⟨reply, hreply, ?_⟩
    rw [onClient, haction, hsend, perform, continueIf_fst]
    rfl

theorem serve_client (hopen : r.closed = false) (delivery : Delivery) (sent : Bool) :
    r.serve c (.client delivery sent) = r.onClient c sent delivery := by
  rw [serve, hopen]
  rfl

/-- A closed relay does nothing, and stays closed. -/
theorem serve_closed (hclosed : r.closed = true) (e : Event) :
    (r.serve c e).1 = [] ∧ (r.serve c e).2.closed = true := by
  cases e with
  | client delivery sent => rw [serve, if_pos hclosed]; exact ⟨rfl, hclosed⟩
  | upstream delivery sent => rw [serve, if_pos hclosed]; exact ⟨rfl, hclosed⟩
  | swap schema => exact ⟨rfl, hclosed⟩

/-- **What is sent upstream**: the close frame with which the loop ends, or the client's own text, a
control message or an operation that the schema in force admits. -/
theorem serve_upstream {e : Event} (h : .upstream message ∈ (r.serve c e).1) :
    (∃ frame, message = .close frame ∧ (r.serve c e).2.closed = true) ∨
    ∃ text sent, e = .client (.message (.text text)) sent ∧ message = .text text ∧
      (IsControl c r.vocab text ∨ Admitted c r.toTunnel r.schema text) := by
  cases hclosed : r.closed with
  | true =>
    rw [(serve_closed hclosed e).1] at h
    cases h
  | false =>
    cases e with
    | swap schema => cases h
    | upstream delivery sent =>
      rw [serve, hclosed] at h
      exact absurd h upstream_not_mem_onUpstream
    | client delivery sent =>
      rw [serve_client hclosed] at h ⊢
      rcases upstream_mem_onClient h with hclose | ⟨text, rfl, hrest⟩
      · exact .inl hclose
      · exact .inr ⟨text, sent, rfl, hrest⟩

/-! #### What an event leaves alone -/

theorem continueIf_frame (r : Relay) (sent : Bool) (acts : List Act) :
    (r.continueIf sent acts).2.toTunnel = r.toTunnel ∧ (r.continueIf sent acts).2.schema = r.schema := by
  cases sent with
  | true => exact ⟨rfl, rfl⟩
  | false => exact ⟨rfl, rfl⟩

theorem perform_frame (r : Relay) (m : Message) (sent : Bool) (action : Action) :
    (r.perform m sent action).2.toTunnel = r.toTunnel ∧ (r.perform m sent action).2.schema = r.schema := by
  cases action with
  | forward operation => exact continueIf_frame _ sent _
  | reply text => exact continueIf_frame _ sent _
  | close notice code reason => exact ⟨rfl, rfl⟩

theorem onClient_frame (c : Serde Num) (r : Relay) (sent : Bool) (delivery : Delivery) :
    (r.onClient c sent delivery).2.toTunnel = r.toTunnel ∧ (r.onClient c sent delivery).2.schema = r.schema := by
  cases delivery with
  | message m =>
    cases m with
    | text text => exact perform_frame r _ sent _
    | binary bytes => exact perform_frame r _ sent _
    | _ => exact ⟨rfl, rfl⟩
  | failed => exact ⟨rfl, rfl⟩
  | ended => exact ⟨rfl, rfl⟩

theorem onUpstream_frame (r : Relay) (sent : Bool) (delivery : Delivery) :
    (r.onUpstream sent delivery).2.toTunnel = r.toTunnel ∧ (r.onUpstream sent delivery).2.schema = r.schema := by
  cases delivery with
  | message m =>
    cases m with
    | text text => exact continueIf_frame r sent _
    | binary bytes => exact continueIf_frame r sent _
    | _ => exact ⟨rfl, rfl⟩
  | failed => exact ⟨rfl, rfl⟩
  | ended => exact ⟨rfl, rfl⟩

/-- The schema after an event. -/
def swapped (schema : Schema) : Event → Schema
  | .swap schema => schema
  | _ => schema

/-- The settings of a tunnel stay, and only a swap changes the schema. -/
theorem serve_frame (c : Serde Num) (r : Relay) (e : Event) :
    (r.serve c e).2.toTunnel = r.toTunnel ∧ (r.serve c e).2.schema = swapped r.schema e := by
  cases e with
  | swap schema => exact ⟨rfl, rfl⟩
  | client delivery sent =>
    by_cases hclosed : r.closed = true
    · rw [serve, if_pos hclosed]
      exact ⟨rfl, rfl⟩
    · rw [serve, if_neg hclosed]
      exact onClient_frame c r sent delivery
  | upstream delivery sent =>
    by_cases hclosed : r.closed = true
    · rw [serve, if_pos hclosed]
      exact ⟨rfl, rfl⟩
    · rw [serve, if_neg hclosed]
      exact onUpstream_frame r sent delivery

end Relay

/-! ### Runs -/

section

variable (c : Serde Num) (t : Tunnel) (schema : Schema)

/-- The relay after the events. -/
def relayAfter (events : List Event) : Relay := after (Relay.serve c) { t with schema } events

/-- What the relay does with an event, after others. -/
def actsAt (past : List Event) (e : Event) : List Act := (Relay.serve c (relayAfter c t schema past) e).1

/-- The schema in force after the events: the last one that was swapped in. -/
def schemaAt (events : List Event) : Schema := events.foldl Relay.swapped schema

/-- The relay polices a run. -/
structure Polices (events : List Event) : Prop where
  /-- What is sent upstream, but for the close frame that ends the tunnel, is the client's own text:
  a control message of the vocabulary, or an operation admitted against the schema in force. -/
  forwarded : ∀ past e rest, events = past ++ e :: rest → ∀ message, .upstream message ∈ actsAt c t schema past e →
    (∃ frame, message = .close frame ∧ (relayAfter c t schema (past ++ [e])).closed = true) ∨
    ∃ text sent, e = .client (.message (.text text)) sent ∧ message = .text text ∧
      (IsControl c t.vocab text ∨ Admitted c t (schemaAt schema past) text)
  /-- A denied operation is answered with one error that has its id, and nothing is sent upstream. -/
  denied : ∀ past text sent rest m id, events = past ++ .client (.message (.text text)) sent :: rest →
    (relayAfter c t schema past).closed = false → IsOperation c t.vocab text m id →
    ¬ Admitted c t (schemaAt schema past) text → ∃ reply, CarriesId c id reply ∧
      actsAt c t schema past (.client (.message (.text text)) sent) =
        .client (.text reply) :: if sent then [] else [.closeLegs]
  /-- A violation ends the tunnel: it is not relayed, and nothing is sent upstream after it. -/
  violation : ∀ past delivery sent rest, events = past ++ .client delivery sent :: rest →
    Violates c t.vocab delivery →
    (∀ message, .upstream message ∈ actsAt c t schema past (.client delivery sent) → ∃ frame, message = .close frame) ∧
    ∀ mid e later, rest = mid ++ e :: later → ∀ message,
      .upstream message ∉ actsAt c t schema (past ++ .client delivery sent :: mid) e

end

section

variable {c : Serde Num} {t : Tunnel} {schema : Schema}

theorem relayAfter_concat (past : List Event) (e : Event) :
    relayAfter c t schema (past ++ [e]) = (Relay.serve c (relayAfter c t schema past) e).2 := after_concat _ past e

/-- The settings of the tunnel and the schema in force, after any run. -/
theorem relayAfter_frame (c : Serde Num) (t : Tunnel) (schema : Schema) (events : List Event) :
    (relayAfter c t schema events).toTunnel = t ∧ (relayAfter c t schema events).schema = schemaAt schema events := by
  induction events using List.reverseRecOn with
  | nil => exact ⟨rfl, rfl⟩
  | append_singleton past e ih =>
    obtain ⟨htunnel, hschema⟩ := Relay.serve_frame c (relayAfter c t schema past) e
    rw [relayAfter_concat, htunnel, hschema, ih.1, ih.2, schemaAt, schemaAt, List.foldl_append]
    exact ⟨rfl, rfl⟩

/-- Once closed, the relay stays closed. -/
theorem closed_append {past : List Event} (h : (relayAfter c t schema past).closed = true) (mid : List Event) :
    (relayAfter c t schema (past ++ mid)).closed = true := by
  induction mid using List.reverseRecOn with
  | nil => rwa [List.append_nil]
  | append_singleton mid e ih =>
    rw [← List.append_assoc, relayAfter_concat]
    exact (Relay.serve_closed ih e).2

/-- A violation is not relayed, and after it the relay is closed. -/
theorem serve_violates {r : Relay} {delivery : Delivery} (h : Violates c r.vocab delivery) (sent : Bool) :
    (∀ message, .upstream message ∈ (r.serve c (.client delivery sent)).1 → ∃ frame, message = .close frame) ∧
      (r.serve c (.client delivery sent)).2.closed = true := by
  cases hclosed : r.closed with
  | true =>
    obtain ⟨hacts, hstays⟩ := Relay.serve_closed (c := c) hclosed (.client delivery sent)
    rw [hacts]
    exact ⟨nofun, hstays⟩
  | false =>
    obtain ⟨m, reason, heq⟩ := Relay.onClient_violates h sent
    rw [Relay.serve_client hclosed, heq]
    refine ⟨fun message hmem => ?_, Relay.perform_violationClose r m sent reason⟩
    rcases Relay.upstream_mem_perform hmem with ⟨operation, hforward, _⟩ | ⟨frame, hframe, _⟩
    · exact absurd hforward (violationClose_ne_forward c r.vocab reason operation)
    · exact ⟨frame, hframe⟩

/-- **The relay is safe**: whatever subprotocol was negotiated, in every interleaving of what the two
legs deliver and of schema swaps. -/
theorem relay_polices (c : Serde Num) (shared : GraphQlShared) (grants : Option ApiAccess)
    (negotiated : Option HeaderValue) (schema : Schema) (events : List Event) :
    Polices c ⟨shared, grants, Vocab.negotiated negotiated⟩ schema events := by
  generalize (⟨shared, grants, Vocab.negotiated negotiated⟩ : Tunnel) = t
  refine ⟨?_, ?_, ?_⟩
  · intro past e rest _ message hmem
    obtain ⟨htunnel, hschema⟩ := relayAfter_frame c t schema past
    have hupstream := Relay.serve_upstream hmem
    rw [htunnel, hschema] at hupstream
    rwa [relayAfter_concat]
  · intro past text sent rest m id _ hopen hop hdenied
    obtain ⟨htunnel, hschema⟩ := relayAfter_frame c t schema past
    rw [← htunnel] at hop
    rw [← hschema] at hdenied
    have hdenied' : ¬ Admitted c (relayAfter c t schema past).toTunnel (relayAfter c t schema past).schema text := by
      rwa [htunnel]
    rw [actsAt, Relay.serve_client hopen]
    exact Relay.onClient_denied hop hdenied' sent
  · intro past delivery sent rest _ hviolates
    obtain ⟨htunnel, -⟩ := relayAfter_frame c t schema past
    rw [← htunnel] at hviolates
    obtain ⟨hacts, hclosed⟩ := serve_violates hviolates sent
    refine ⟨hacts, fun mid e later _ message hmem => ?_⟩
    rw [← relayAfter_concat] at hclosed
    have hstays := closed_append hclosed mid
    rw [List.append_assoc, List.singleton_append] at hstays
    rw [actsAt, (Relay.serve_closed hstays e).1] at hmem
    cases hmem

end

end G2way.Middleware.GraphQlWs
