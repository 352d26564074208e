import G2way.Core.Session

/-!
# Requests and their context

A request as the layers of a chain see it: the message, and the extensions the
gateway's own layers stamp on it (`g2-middleware/src/context.rs`). "Never derived
from anything a client sends: extensions only ever come from gateway layers."
-/

namespace G2way.Middleware

open G2way.Core

/-- The authenticated session of a request. -/
structure SessionContext where
  /-- The resolved session. -/
  session : KeySession
  /-- The digest the key was looked up under. -/
  keyHash : String
  deriving DecidableEq, Repr

/-- What the accept loop knows of the connection a request arrived on. -/
structure ConnectionInfo where
  /-- The gateway terminated TLS. -/
  tls : Bool := false
  /-- The fingerprint of the client certificate the handshake verified. -/
  clientCertFingerprint : Option String := none
  deriving DecidableEq, Repr

/-- The policed subscription tunnel, stamped by the GraphQL layer on a handshake
(`GraphQlWsTunnel`): the grants of the key that made it. -/
structure GraphQlWsTunnel where
  grants : Option ApiAccess
  deriving DecidableEq, Repr

/-- `accepts`: the subprotocol the upstream chose, if any, is one the gateway polices. -/
def GraphQlWsTunnel.accepts (_ : GraphQlWsTunnel) (negotiated : Option HeaderValue) : Bool :=
  match negotiated with
  | none => true
  | some value => value.toStr.any fun name =>
      Lib.Text.trim name == "graphql-transport-ws" || Lib.Text.trim name == "graphql-ws"

/-- The extensions of a request. -/
structure Extensions where
  /-- `AuthBypass`: the path matched an `ignore_auth_paths` rule. -/
  authBypass : Bool := false
  connection : Option ConnectionInfo := none
  /-- `ClientAddr`: the address of the peer. -/
  clientAddr : Option String := none
  session : Option SessionContext := none
  /-- hyper's `OnUpgrade` handle: the client's connection can switch protocols. -/
  onUpgrade : Bool := false
  graphQlWsTunnel : Option GraphQlWsTunnel := none
  deriving DecidableEq, Repr

/-- A request. -/
structure Request where
  method : String := "GET"
  path : String := "/"
  /-- The raw query string of the URI. -/
  query : Option String := none
  headers : HeaderMap := []
  body : List UInt8 := []
  extensions : Extensions := {}
  deriving DecidableEq, Repr

/-- `Uri::path_and_query`. -/
def Request.pathAndQuery (req : Request) : String :=
  match req.query with
  | none => req.path
  | some q => req.path ++ "?" ++ q

/-- A gateway-made answer: its status and its message (`json_error`), with the
`WWW-Authenticate` challenge where there is one. -/
structure Rejection where
  status : ℕ
  message : String
  challenge : Option String := none
  deriving DecidableEq, Repr

end G2way.Middleware
