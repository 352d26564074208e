import G2way.Core.Http

/-!
# Key sessions and policies

The records an auth layer resolves a credential to, from `g2-core/src/session.rs`
and `g2-core/src/policy.rs`. A session is stored as JSON "under
`g2:{org_id}:apikey:{key_hash}`", addressed by the hash of the raw key, and a
policy under `g2:{org_id}:policy:{policy_id}`. "When a key references a policy,
the policy's `rate`, `quota`, and `access` **replace** the session's own
wholesale."

`hash_key`, the SHA-256 of the key in hexadecimal, is a parameter wherever it is
used.
-/

namespace G2way.Core

/-- At most `requests` per window of `perSeconds`. -/
structure RateLimit where
  requests : ℕ
  perSeconds : ℕ
  deriving DecidableEq, Repr

/-- At most `max` requests per renewal period. -/
structure Quota where
  max : ℕ
  renewalRateSecs : ℕ
  deriving DecidableEq, Repr

/-- The basic-auth data of a session addressed by a username. -/
structure BasicAuthData where
  /-- The bcrypt hash of the user's password. -/
  passwordHash : String
  deriving DecidableEq, Repr

/-- The signing credentials of a session addressed by a `keyId`. -/
structure HmacData where
  /-- The shared secret. -/
  secret : String
  deriving DecidableEq, Repr

/-- One GraphQL type and the fields of it a grant refers to. -/
structure TypeFields where
  /-- The type's name. -/
  name : String
  /-- The fields' names; `*` is every field. -/
  fields : List String
  deriving DecidableEq, Repr

/-- What a key is granted on one API. -/
structure ApiAccess where
  /-- The field allow list; not consulted when empty. -/
  allowedTypes : List TypeFields := []
  /-- The field block list, consulted while the allow list is empty. -/
  restrictedTypes : List TypeFields := []
  /-- Introspection is off for this key. -/
  disableIntrospection : Bool := false
  /-- The key's own depth limit; one that is not positive lifts the limit. -/
  maxQueryDepth : Option ℤ := none
  deriving DecidableEq, Repr

/-- The state attached to one API key. -/
structure KeySession where
  orgId : String := "default"
  /-- The label shown in logs (`alias`). -/
  aliasName : Option String := none
  rate : Option RateLimit := none
  quota : Option Quota := none
  /-- The second the key stops working at. -/
  expiresAt : Option ℕ := none
  active : Bool := true
  /-- The APIs the key may call; the empty map grants every API of the organization. -/
  access : List (String × ApiAccess) := []
  basicAuth : Option BasicAuthData := none
  hmac : Option HmacData := none
  applyPolicies : List String := []
  deriving DecidableEq, Repr

/-- A reusable bundle of rate, quota and access. -/
structure Policy where
  policyId : String
  name : String
  orgId : String := "default"
  active : Bool := true
  rate : Option RateLimit := none
  quota : Option Quota := none
  access : List (String × ApiAccess) := []
  deriving DecidableEq, Repr

namespace KeySession

/-- `apply_policy`. -/
def applyPolicy (s : KeySession) (p : Policy) : KeySession :=
  { s with rate := p.rate, quota := p.quota, access := p.access }

/-- `is_expired`: at its second a key has expired. -/
def isExpired (s : KeySession) (nowUnixSecs : ℕ) : Bool :=
  match s.expiresAt with
  | some expiresAt => decide (expiresAt ≤ nowUnixSecs)
  | none => false

/-- `allows_api`. -/
def allowsApi (s : KeySession) (apiId : String) : Bool :=
  s.access.isEmpty || s.access.any fun p => p.1 == apiId

end KeySession

/-! ### Storage keys -/

/-- `session_key_prefix`. -/
def sessionKeyPrefix (orgId : String) : String := "g2:" ++ orgId ++ ":apikey:"

/-- `session_storage_key`. -/
def sessionStorageKey (orgId keyHash : String) : String := sessionKeyPrefix orgId ++ keyHash

/-- `policy_key_prefix`. -/
def policyKeyPrefix (orgId : String) : String := "g2:" ++ orgId ++ ":policy:"

/-- `policy_storage_key`. -/
def policyStorageKey (orgId policyId : String) : String := policyKeyPrefix orgId ++ policyId

end G2way.Core
