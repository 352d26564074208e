import G2way.Lib.Result
import G2way.Lib.Run
import G2way.Proxy.Breaker
import G2way.Core.Http
import G2way.Core.Session
import G2way.Middleware.Context
import G2way.Middleware.Hmac
import G2way.Middleware.Auth
import G2way.Middleware.AuthModes
import G2way.GraphQl.Check
import G2way.GraphQl.Execution
import G2way.GraphQl.Request
import G2way.GraphQl.Layer
import G2way.GraphQl.Policed
import G2way.GraphQl.CacheKeys
import G2way.Core.ApiDefinition
import G2way.Proxy.Router
import G2way.Proxy.Forward
import G2way.Proxy.Tunnel
import G2way.GraphQl.Compose
import G2way.GraphQl.Planner
import G2way.GraphQl.Merging
import G2way.GraphQl.Subqueries
import G2way.Lib.Service
import G2way.Proxy.Circuit
import G2way.Lib.Window
import G2way.Storage.SlidingLog
import G2way.Storage.Memory
import G2way.Storage.Redis
import G2way.Storage.Quota
import G2way.Storage.Lists
import G2way.Lib.TokenBucket
import G2way.Middleware.Spike
import G2way.Middleware.RateLimit
import G2way.Lib.Base64
import G2way.Lib.JsonRead
import G2way.Middleware.Cache
import G2way.Middleware.GraphQlWs
import G2way.Middleware.Jwks
import G2way.Lib.Hysteresis
import G2way.Proxy.Health
import G2way.Proxy.Discovery
import G2way.Core.Records
import G2way.Admin.Resources
import G2way.Proxy.Headers
import G2way.Telemetry.Analytics
import G2way.Proxy.Accounts
import G2way.GraphQl.Introspection
import G2way.GraphQl.SchemaState
import G2way.GraphQl.Sync
import G2way.Udg.Execution
import G2way.Middleware.SigningString
import G2way.Middleware.SignatureHeader
import G2way.Proxy.Routing
import G2way.Proxy.ForwardedFor
import G2way.GraphQl.Entities
import G2way.GraphQl.Plans
import G2way.GraphQl.ComposeOrder
import G2way.Storage.TtlMap
import G2way.Lib.Glob
import G2way.Storage.ScanPrefix
import G2way.Lib.IpAddr
import G2way.Middleware.IpFilter
import G2way.Storage.Durations
import G2way.Middleware.Cors
import G2way.Middleware.CacheRuns
import G2way.GraphQl.Persisted
import G2way.Udg.Federation
import G2way.Lib.GraphQlLexer
import G2way.Lib.Sdl
import G2way.Lib.SdlRead
import G2way.GraphQl.Introspected
import G2way.GraphQl.SdlRoundTrip
import G2way.Core.Loader
import G2way.Lib.Layers
import G2way.Middleware.ChainBuilder
import G2way.Middleware.Versioning
import G2way.Proxy.Attempts
import G2way.Proxy.Reload
import G2way.Proxy.Serving
import G2way.Middleware.Guest
