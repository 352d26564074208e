import G2way.Lib.Service
import G2way.Lib.Text
import Mathlib.Data.List.MinMax

/-!
# The key cache of JWT authentication

`g2-middleware/src/jwks.rs`: the keys of an API's identity provider "live in a
pod-local `kid → DecodingKey` map behind an `ArcSwap`, … replaced wholesale by
refreshes". A refresh runs periodically, or when a token has an unknown `kid`.
"Failed refreshes log a warning and keep the previous key set (stale-on-error); a
*successful* fetch is authoritative even when it shrinks or empties the set — that
is how key revocation propagates."

## The model

Runs of `refresh` are independent tasks. A run first needs the URL of the key set,
for which it may have to wait for the issuer's discovery document; then it fetches
the key set and waits for the answer; then it swaps the map in. Each of these is an
`Event` of its own, so that a list of events is an interleaving of any number of
runs. Runs are numbered in the order in which they start to fetch the key set. The
parsers of the documents are parameters.

## What is proved

`serve_keys` says once what an event can do to the map: only a swap changes it.
`fresh_iff_inOrder`: the map in force is always the one of the run that started
last among those that have completed, exactly if no run that was overtaken brings
other keys. Nothing in the code sees to that: `revoked_key_returns`.
-/

namespace G2way.Middleware.Jwks

open G2way.Lib

variable {κ : Type}

/-! ### Key sets -/

/-- The `alg` of a key. -/
inductive KeyAlgorithm where
  | rs256
  | other (name : String)
  deriving DecidableEq, Repr

/-- A key of a key set. -/
structure Jwk (κ : Type) where
  /-- `kid`. -/
  keyId : Option String
  /-- Its parameters are those of an RSA key. -/
  rsa : Bool
  keyAlgorithm : Option KeyAlgorithm := none
  /-- `DecodingKey::from_jwk`. -/
  decodingKey : Except String κ

/-- A map from `kid` to key. -/
abbrev Keys (κ : Type) := List (String × κ)

/-- `HashMap::insert`. -/
def Keys.insert (map : Keys κ) (kid : String) (key : κ) : Keys κ := map.filter (fun p => p.1 ≠ kid) ++ [(kid, key)]

/-- One turn of the loop of `refresh`: "keeps only RSA keys that carry a `kid` and whose `alg`, if
present, is RS256". -/
def insertJwk (map : Keys κ) (jwk : Jwk κ) : Keys κ :=
  match jwk.keyId with
  | none => map
  | some kid =>
    if !jwk.rsa then map
    else if jwk.keyAlgorithm.any (· ≠ .rs256) then map
    else match jwk.decodingKey with
      | .ok key => map.insert kid key
      | .error _ => map

/-- The map of a key set. -/
def keysOf (set : List (Jwk κ)) : Keys κ := set.foldl insertJwk []

/-- What the gateway reads of a discovery document. -/
structure DiscoveryDoc where
  issuer : String
  jwksUri : String
  deriving DecidableEq, Repr

/-- The readers of the documents. -/
structure Readers (κ : Type) where
  /-- `serde_json::from_slice::<JwkSet>`. -/
  jwkSet : List UInt8 → Except String (List (Jwk κ))
  /-- `serde_json::from_slice::<DiscoveryDoc>`. -/
  discoveryDoc : List UInt8 → Except String DiscoveryDoc

/-! ### The cache and its runs -/

/-- Where the key set is fetched from. -/
inductive JwksEndpoint where
  /-- A URL known at config time. -/
  | url (url : String)
  /-- An issuer whose discovery document names the URL. -/
  | discovery (issuerUrl : String)
  deriving DecidableEq, Repr

/-- The cache, and the runs that are under way. -/
structure JwksCache (κ : Type) where
  endpoint : JwksEndpoint
  /-- The URL that discovery found, once it has. -/
  resolved : Option String := none
  /-- The map in force. -/
  keys : Keys κ := []
  /-- Unix seconds of the last attempt. -/
  lastAttemptSecs : ℕ := 0
  /-- How many runs wait for the discovery document. -/
  discovering : ℕ := 0
  /-- The runs that wait for the key set. -/
  fetching : List ℕ := []
  /-- The runs that have their map and are about to swap it in. -/
  ready : List (ℕ × Keys κ) := []
  /-- How many runs have started to fetch the key set. -/
  started : ℕ := 0

/-- `MISS_REFETCH_COOLDOWN_SECS`. -/
def missRefetchCooldownSecs : ℕ := 10

/-- What happens to the cache. -/
inductive Event where
  /-- The background task starts a run (`refresh_once`). -/
  | tick (now : ℕ)
  /-- `key_for` has missed: it tries to exchange the time of the last attempt that it read for
  `now`, and if it wins, starts a run at `start`. -/
  | miss (last now start : ℕ)
  /-- A run gets the answer to its discovery. -/
  | discovered (answer : Except String (List UInt8))
  /-- A run gets the answer to its fetch. -/
  | answered (n : ℕ) (answer : Except String (List UInt8))
  /-- A run swaps its map in. -/
  | store (n : ℕ)

/-- What comes of an event. -/
inductive Effect (κ : Type) where
  /-- Nothing: there is no such run, or the exchange was lost. -/
  | nothing
  /-- The discovery document is fetched. -/
  | discovers (url : String)
  /-- A run starts to fetch the key set. -/
  | fetches (n : ℕ) (url : String)
  /-- A run has its map. -/
  | built (n : ℕ)
  /-- A run failed. -/
  | failed (message : String)
  /-- A run completed. -/
  | stored (n : ℕ) (keys : Keys κ)

/-- The well-known path of the issuer, "one trailing slash trimmed". -/
def discoveryUrl (issuerUrl : String) : String :=
  let base := if issuerUrl.toList.getLast? = some '/' then String.ofList issuerUrl.toList.dropLast else issuerUrl
  base ++ "/.well-known/openid-configuration"

namespace JwksCache

/-- The key set is fetched. -/
def startFetch (s : JwksCache κ) (url : String) : Effect κ × JwksCache κ :=
  (.fetches s.started url, { s with fetching := s.fetching ++ [s.started], started := s.started + 1 })

/-- The start of `refresh`, up to its first wait. -/
def refresh (s : JwksCache κ) (now : ℕ) : Effect κ × JwksCache κ :=
  let s := { s with lastAttemptSecs := now }
  match s.endpoint, s.resolved with
  | .url url, _ => s.startFetch url
  | .discovery _, some url => s.startFetch url
  | .discovery issuerUrl, none => (.discovers (discoveryUrl issuerUrl), { s with discovering := s.discovering + 1 })

/-- The rest of `jwks_url`: "a concurrent refresh may have resolved it first; … first write wins". -/
def discover (c : Readers κ) (s : JwksCache κ) (issuerUrl : String) (answer : Except String (List UInt8)) :
    Effect κ × JwksCache κ :=
  match answer with
  | .error e => (.failed e, s)
  | .ok body =>
    match c.discoveryDoc body with
    | .error e => (.failed ("response is not a valid OIDC discovery document: " ++ e), s)
    | .ok doc =>
      if doc.issuer ≠ issuerUrl then
        (.failed ("discovery document issuer `" ++ doc.issuer ++ "` does not match configured issuer `" ++ issuerUrl
          ++ "`"), s)
      else
        let url := s.resolved.getD doc.jwksUri
        { s with resolved := some url }.startFetch url

/-- `refresh` once the answer is there, up to the swap. -/
def receive (c : Readers κ) (s : JwksCache κ) (n : ℕ) (answer : Except String (List UInt8)) :
    Effect κ × JwksCache κ :=
  match answer with
  | .error e => (.failed e, s)
  | .ok body =>
    match c.jwkSet body with
    | .error e => (.failed ("response is not a valid JWKS document: " ++ e), s)
    | .ok set => (.built n, { s with ready := s.ready ++ [(n, keysOf set)] })

/-- One event. -/
def serve (c : Readers κ) (s : JwksCache κ) : Event → Effect κ × JwksCache κ
  | .tick now => s.refresh now
  | .miss last now start =>
    if now - last ≥ missRefetchCooldownSecs ∧ s.lastAttemptSecs = last then
      { s with lastAttemptSecs := now }.refresh start
    else (.nothing, s)
  | .discovered answer =>
    match s.endpoint, s.discovering with
    | .discovery issuerUrl, waiting + 1 => { s with discovering := waiting }.discover c issuerUrl answer
    | _, _ => (.nothing, s)
  | .answered n answer =>
    if n ∈ s.fetching then { s with fetching := s.fetching.erase n }.receive c n answer else (.nothing, s)
  | .store n =>
    match s.ready.lookup n with
    | some keys => (.stored n keys, { s with keys, ready := s.ready.filter fun r => r.1 ≠ n })
    | none => (.nothing, s)

end JwksCache

/-- `key_for` on a hit, and its answer after a miss: the key in force. -/
def keyFor (s : JwksCache κ) (kid : String) : Option κ := s.keys.lookup kid

/-! ### What an event does to the map -/

/-- The swap an effect is. -/
def Effect.swap : Effect κ → Option (ℕ × Keys κ)
  | .stored n keys => some (n, keys)
  | _ => none

section

variable (c : Readers κ) (s : JwksCache κ)

theorem startFetch_keys (url : String) : (s.startFetch url).1.swap = none ∧ (s.startFetch url).2.keys = s.keys :=
  ⟨rfl, rfl⟩

theorem refresh_keys (now : ℕ) : (s.refresh now).1.swap = none ∧ (s.refresh now).2.keys = s.keys := by
  unfold JwksCache.refresh
  dsimp only
  split
  · exact startFetch_keys _ _
  · exact startFetch_keys _ _
  · exact ⟨rfl, rfl⟩

theorem discover_keys (issuerUrl : String) (answer : Except String (List UInt8)) :
    (s.discover c issuerUrl answer).1.swap = none ∧ (s.discover c issuerUrl answer).2.keys = s.keys := by
  unfold JwksCache.discover
  split
  · exact ⟨rfl, rfl⟩
  · split
    · exact ⟨rfl, rfl⟩
    · split
      · exact ⟨rfl, rfl⟩
      · exact startFetch_keys _ _

theorem receive_keys (n : ℕ) (answer : Except String (List UInt8)) :
    (s.receive c n answer).1.swap = none ∧ (s.receive c n answer).2.keys = s.keys := by
  unfold JwksCache.receive
  split
  · exact ⟨rfl, rfl⟩
  · split
    · exact ⟨rfl, rfl⟩
    · exact ⟨rfl, rfl⟩

/-- **What an event does to the map**: a run that is ready swaps its own in; nothing else changes it. -/
theorem serve_keys (e : Event) :
    (∃ n keys, e = .store n ∧ s.ready.lookup n = some keys ∧ (s.serve c e).1.swap = some (n, keys) ∧
      (s.serve c e).2.keys = keys) ∨
    ((∀ n keys, e = .store n → s.ready.lookup n ≠ some keys) ∧ (s.serve c e).1.swap = none ∧
      (s.serve c e).2.keys = s.keys) := by
  cases e with
  | tick now => exact .inr ⟨nofun, refresh_keys s now⟩
  | miss last now start =>
    refine .inr ⟨nofun, ?_⟩
    rw [JwksCache.serve]
    split
    · exact refresh_keys _ start
    · exact ⟨rfl, rfl⟩
  | discovered answer =>
    refine .inr ⟨nofun, ?_⟩
    rw [JwksCache.serve]
    split
    · exact discover_keys c _ _ answer
    · exact ⟨rfl, rfl⟩
  | answered n answer =>
    refine .inr ⟨nofun, ?_⟩
    rw [JwksCache.serve]
    split
    · exact receive_keys c _ n answer
    · exact ⟨rfl, rfl⟩
  | store n =>
    rw [JwksCache.serve]
    cases hready : s.ready.lookup n with
    | some keys => exact .inl ⟨n, keys, rfl, hready, rfl, rfl⟩
    | none =>
      refine .inr ⟨fun m keys hm => ?_, rfl, rfl⟩
      cases hm
      rw [hready]
      exact nofun

end

/-! ### The newest of the completed runs -/

/-- The completed run that started last. -/
def newest (stores : List (ℕ × Keys κ)) : Option (ℕ × Keys κ) := stores.reverse.argmax Prod.fst

/-- The map that should be in force: that of the completed run that started last, or none yet. -/
def newestKeys (stores : List (ℕ × Keys κ)) : Keys κ := ((newest stores).map Prod.snd).getD []

/-- A run that started after the run `n` has completed. -/
def Overtaken (stores : List (ℕ × Keys κ)) (n : ℕ) : Prop := ∃ e ∈ stores, n < e.1

section

variable {stores : List (ℕ × Keys κ)} {n : ℕ} {keys : Keys κ}

/-- An overtaken run does not count. -/
theorem newestKeys_of_overtaken (h : Overtaken stores n) : newestKeys (stores ++ [(n, keys)]) = newestKeys stores := by
  obtain ⟨e, he, hn⟩ := h
  have hnewest : newest (stores ++ [(n, keys)]) = newest stores := by
    rw [newest, List.reverse_append, List.reverse_singleton, List.singleton_append, List.argmax_cons]
    cases hmax : stores.reverse.argmax Prod.fst with
    | none =>
      rw [List.reverse_eq_nil_iff.1 (List.argmax_eq_none.1 hmax)] at he
      cases he
    | some b =>
      have hle : e.1 ≤ b.1 := List.le_of_mem_argmax (List.mem_reverse.2 he) hmax
      have hlt : n < b.1 := by omega
      simp [hlt, newest, hmax]
  rw [newestKeys, hnewest, newestKeys]

/-- A run that was not overtaken is the newest. -/
theorem newestKeys_of_not_overtaken (h : ¬ Overtaken stores n) : newestKeys (stores ++ [(n, keys)]) = keys := by
  have hnewest : newest (stores ++ [(n, keys)]) = some (n, keys) := by
    rw [newest, List.reverse_append, List.reverse_singleton, List.singleton_append, List.argmax_cons]
    cases hmax : stores.reverse.argmax Prod.fst with
    | none => rfl
    | some b =>
      have hmem := List.mem_reverse.1 (List.argmax_mem hmax)
      have hnot : ¬ n < b.1 := fun hlt => h ⟨b, hmem, hlt⟩
      exact if_neg hnot
  rw [newestKeys, hnewest]
  rfl

/-- Whatever key should be in force was brought by a completed run that no completed run started after. -/
theorem lookup_newestKeys {kid : String} {key : κ} (h : (newestKeys stores).lookup kid = some key) :
    ∃ e ∈ stores, e.2.lookup kid = some key ∧ ∀ e' ∈ stores, e'.1 ≤ e.1 := by
  unfold newestKeys newest at h
  cases hmax : stores.reverse.argmax Prod.fst with
  | none => simp [hmax] at h
  | some b =>
    rw [hmax] at h
    exact ⟨b, List.mem_reverse.1 (List.argmax_mem hmax), h, fun e' he' =>
      List.le_of_mem_argmax (List.mem_reverse.2 he') hmax⟩

end

/-! ### Interleavings -/

section

variable (c : Readers κ) (endpoint : JwksEndpoint)

/-- The cache after the events. -/
def cacheAfter (events : List Event) : JwksCache κ := after (JwksCache.serve c) { endpoint } events

/-- The runs that have completed, with their maps, in the order in which they did. -/
def stores (events : List Event) : List (ℕ × Keys κ) :=
  (answered (JwksCache.serve c) { endpoint } events).filterMap fun a => a.2.swap

/-- The map in force is fresh, in every state that an interleaving reaches. -/
structure Fresh (events : List Event) : Prop where
  /-- After any run completed, the map is that of the completed run that started last. -/
  newest : ∀ past rest, events = past ++ rest → (cacheAfter c endpoint past).keys = newestKeys (stores c endpoint past)
  /-- No key comes back: once a run has completed, a key in force was fetched by a run that did not
  start earlier. -/
  revoked : ∀ past rest, events = past ++ rest → ∀ done ∈ stores c endpoint past, ∀ kid key,
    keyFor (cacheAfter c endpoint past) kid = some key →
    ∃ e ∈ stores c endpoint past, done.1 ≤ e.1 ∧ e.2.lookup kid = some key
  /-- A failed run does not change the map. -/
  failed : ∀ past e rest message, events = past ++ e :: rest →
    (JwksCache.serve c (cacheAfter c endpoint past) e).1 = .failed message →
    (cacheAfter c endpoint (past ++ [e])).keys = (cacheAfter c endpoint past).keys

/-- A run that was overtaken brings no other keys than those in force. -/
def InOrder (events : List Event) : Prop :=
  ∀ past n rest keys, events = past ++ .store n :: rest → (cacheAfter c endpoint past).ready.lookup n = some keys →
    Overtaken (stores c endpoint past) n → keys = (cacheAfter c endpoint past).keys

end

section

variable {c : Readers κ} {endpoint : JwksEndpoint} {events : List Event}

theorem cacheAfter_concat (past : List Event) (e : Event) :
    cacheAfter c endpoint (past ++ [e]) = (JwksCache.serve c (cacheAfter c endpoint past) e).2 := after_concat _ past e

theorem stores_concat (past : List Event) (e : Event) :
    stores c endpoint (past ++ [e]) =
      stores c endpoint past ++ ((JwksCache.serve c (cacheAfter c endpoint past) e).1.swap).toList := by
  rw [stores, answered_concat, List.filterMap_append, stores]
  congr 1

theorem InOrder.of_append {past rest : List Event} (h : InOrder c endpoint (past ++ rest)) : InOrder c endpoint past :=
  fun before n later keys heq => h before n (later ++ rest) keys (by rw [heq, List.append_assoc]; rfl)

/-- In order, one event keeps the map fresh. -/
theorem newest_step {past : List Event} {e : Event} (h : InOrder c endpoint (past ++ [e]))
    (hpast : (cacheAfter c endpoint past).keys = newestKeys (stores c endpoint past)) :
    (cacheAfter c endpoint (past ++ [e])).keys = newestKeys (stores c endpoint (past ++ [e])) := by
  rw [cacheAfter_concat, stores_concat]
  rcases serve_keys c (cacheAfter c endpoint past) e with ⟨n, keys, rfl, hready, hswap, hkeys⟩ | ⟨-, hswap, hkeys⟩
  · rw [hswap, hkeys, Option.toList_some]
    by_cases hover : Overtaken (stores c endpoint past) n
    · rw [newestKeys_of_overtaken hover, ← hpast]
      exact h past n [] keys rfl hready hover
    · exact (newestKeys_of_not_overtaken hover).symm
  · rw [hswap, hkeys, Option.toList_none, List.append_nil]
    exact hpast

/-- In order, the map is fresh after every interleaving. -/
theorem newest_of_inOrder (h : InOrder c endpoint events) :
    (cacheAfter c endpoint events).keys = newestKeys (stores c endpoint events) := by
  induction events using List.reverseRecOn with
  | nil => rfl
  | append_singleton past e ih => exact newest_step h (ih h.of_append)

theorem failed_keys {past : List Event} {e : Event} {message : String}
    (h : (JwksCache.serve c (cacheAfter c endpoint past) e).1 = .failed message) :
    (cacheAfter c endpoint (past ++ [e])).keys = (cacheAfter c endpoint past).keys := by
  rw [cacheAfter_concat]
  rcases serve_keys c (cacheAfter c endpoint past) e with ⟨n, keys, _, _, hswap, _⟩ | ⟨_, _, hkeys⟩
  · rw [h] at hswap
    cases hswap
  · exact hkeys

/-- **Freshness**: in an interleaving of any number of runs, the map in force is that of the completed
run that started last, at every moment, exactly if no run that was overtaken brings other keys. -/
theorem fresh_iff_inOrder (c : Readers κ) (endpoint : JwksEndpoint) (events : List Event) :
    Fresh c endpoint events ↔ InOrder c endpoint events := by
  constructor
  · intro h past n rest keys heq hready hover
    have hbefore := h.newest past (.store n :: rest) heq
    have hafter := h.newest (past ++ [.store n]) rest (by rw [heq, List.append_assoc]; rfl)
    rw [cacheAfter_concat, stores_concat] at hafter
    rcases serve_keys c (cacheAfter c endpoint past) (.store n) with
      ⟨m, keys', hm, hready', hswap, hkeys⟩ | ⟨hnone, -, -⟩
    · cases hm
      obtain rfl : keys = keys' := Option.some.inj (hready.symm.trans hready')
      rw [hswap, hkeys, Option.toList_some, newestKeys_of_overtaken hover, ← hbefore] at hafter
      exact hafter
    · exact absurd hready (hnone n keys rfl)
  · intro h
    have hnewest : ∀ past rest, events = past ++ rest →
        (cacheAfter c endpoint past).keys = newestKeys (stores c endpoint past) := by
      rintro past rest rfl
      exact newest_of_inOrder h.of_append
    refine ⟨hnewest, ?_, fun past e rest message _ hfailed => failed_keys hfailed⟩
    intro past rest heq done hdone kid key hkey
    rw [keyFor, hnewest past rest heq] at hkey
    obtain ⟨e, he, hlookup, hmax⟩ := lookup_newestKeys hkey
    exact ⟨e, he, hmax done hdone, hlookup⟩

end

/-! ### A key that was revoked comes back -/

/-- A key set before the key `old` is revoked. -/
def beforeRevocation : String :=
  "\x7b\"keys\":[\x7b\"kty\":\"RSA\",\"kid\":\"old\",\"n\":\"sXch\",\"e\":\"AQAB\"\x7d,\x7b\"kty\":\"RSA\",\"kid\":\"new\",\"n\":\"xjlC\",\"e\":\"AQAB\"\x7d]\x7d"

/-- The key set after it. -/
def afterRevocation : String :=
  "\x7b\"keys\":[\x7b\"kty\":\"RSA\",\"kid\":\"new\",\"n\":\"xjlC\",\"e\":\"AQAB\"\x7d]\x7d"

/-- What the two are read as; a key is its modulus. -/
def provider : Readers String where
  jwkSet body :=
    if body = Text.utf8 beforeRevocation then
      .ok [⟨some "old", true, none, .ok "sXch"⟩, ⟨some "new", true, none, .ok "xjlC"⟩]
    else if body = Text.utf8 afterRevocation then .ok [⟨some "new", true, none, .ok "xjlC"⟩]
    else .error "expected value at line 1 column 1"
  discoveryDoc _ := .error "missing field `issuer`"

/-- A token with an unknown `kid` starts a run; a second later the background task starts one, and is
answered first. -/
def overtaking : List Event :=
  [.miss 0 100 100, .tick 101, .answered 1 (.ok (Text.utf8 afterRevocation)), .store 1,
    .answered 0 (.ok (Text.utf8 beforeRevocation)), .store 0]

/-- The run that was overtaken brings the revoked key back. -/
theorem revoked_key_returns :
    ¬ Fresh provider (.url "https://idp.internal/jwks.json") overtaking ∧
      (newestKeys (stores provider (.url "https://idp.internal/jwks.json") overtaking)).lookup "old" = none ∧
      keyFor (cacheAfter provider (.url "https://idp.internal/jwks.json") overtaking) "old" = some "sXch" := by
  have hnewest : (newestKeys (stores provider (.url "https://idp.internal/jwks.json") overtaking)).lookup "old" =
      none := by
    decide
  have hkey : keyFor (cacheAfter provider (.url "https://idp.internal/jwks.json") overtaking) "old" =
      some "sXch" := by
    decide
  refine ⟨fun h => ?_, hnewest, hkey⟩
  have hfresh := h.newest overtaking [] (List.append_nil _).symm
  rw [keyFor, hfresh, hnewest] at hkey
  cases hkey

end G2way.Middleware.Jwks
