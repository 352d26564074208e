import G2way.Middleware.Cache
import G2way.Middleware.Context
import G2way.Storage.Durations

/-!
# Runs of the response cache

`Cache::call` of `g2-middleware/src/cache.rs` over whole runs: a request is looked up
under its method and target, a miss goes to the upstream, and a cacheable answer is
written once it has streamed. "The cache is shared across clients", so what one client's
request leaves in the storage another client is served.

## The model

Requests are under way at once, each by a number. A step lets time pass, looks a request
up (the storage may fail, and the entry may have expired), has the upstream answer a miss,
or runs one of the background tasks that write (which may fail too). An answer is its head
and the polls of its body, which the wrapper of `Middleware.Cache` passes on and copies.

The upstream keeps to HTTP (`Upstream.Answers`): a request without `Range` gets a `200` and
the full body of its target, one with `Range` a `206` and a part. `hash_key` and
`serde_json` are parameters.

## What is proved

Every entry is the full body of the requests with its key, as long as no part is written
(`Inv`); then a request without `Range` is served the full body, whatever was requested
before it (`whole_served`). Nothing keeps a part from being written: the key does not look
at `Range`, and a `206` is a success (`part_served_for_whole`).
-/

namespace G2way.Middleware.CacheRuns

open G2way.Core G2way.Lib G2way.Storage G2way.Middleware.Cache
open G2way.GraphQl (Serde)

variable {Num ε : Type}

/-! ### One call -/

/-- `CacheState`, but for the storage. -/
structure CacheState where
  /-- `g2:{org}:cache:{scope}:`. -/
  keyPrefix : String
  ttl : ℕ
  maxBodyBytes : ℕ
  deriving DecidableEq, Repr

/-- `CacheLayer::new`. -/
def CacheState.new (config : CacheConfig) (scope orgId : String) : CacheState :=
  ⟨responseCacheKeyPrefix orgId scope, fromSecs config.ttlSecs, min config.maxBodyBytes (2 ^ 64 - 1)⟩

/-- `is_safe_method`. -/
def isSafeMethod (method : String) : Bool := method = "GET" || method = "HEAD" || method = "OPTIONS"

/-- The request line that the digest covers. -/
def requestLine (req : Request) : String := req.method ++ " " ++ req.pathAndQuery

/-- The key of a request. -/
def CacheState.key (st : CacheState) (hashKey : String → String) (req : Request) : String :=
  st.keyPrefix ++ hashKey (requestLine req)

/-- The lookup of `Cache::call`: the stored response, or a miss. A corrupt entry is a miss, and so is
a storage that fails. -/
def lookup (c : Serde Num) : Except String (Option String) → Option Cache.Response
  | .ok (some stored) => decodeEntry c stored
  | .ok none => none
  | .error _ => none

/-- What the client sees of the upstream's body, and what is written of it. -/
def passOn (c : Serde Num) (st : CacheState) (key : String) (parts : Parts) (polls : List (Polled ε)) :
    List (Polled ε) × List SetCall :=
  match recordIfCacheable st.maxBodyBytes st.ttl key parts with
  | some body => (body.seen c polls, body.sets c polls)
  | none => (polls, [])

/-! ### The upstream -/

/-- The request asks for a part. -/
def hasRange (req : Request) : Bool := (req.headers.get "range").isSome

/-- An upstream whose full bodies are fixed. -/
structure Upstream where
  /-- The full body of a target, for a method. -/
  full : (method target : String) → List UInt8
  /-- The part of it that a request asks for. -/
  part : Request → List UInt8

/-- The full body of a request's target. -/
def Upstream.body (up : Upstream) (req : Request) : List UInt8 := up.full req.method req.pathAndQuery

/-- The upstream may answer so: a request without `Range` gets a `200` with the full body, one with
`Range` a `206` with the part. A stream that breaks off has less. -/
structure Upstream.Answers (up : Upstream) (req : Request) (parts : Parts) (polls : List (Polled ε)) : Prop where
  fused : Fused polls
  status : parts.status = if hasRange req then 206 else 200
  data : endedCleanly polls = true → dataOf polls = if hasRange req then up.part req else up.body req

/-! ### Runs -/

/-- Where a request stands. -/
inductive Stage (ε : Type) where
  /-- Looked up and not found. -/
  | missed (req : Request) (key : String)
  /-- Served from the cache. -/
  | hit (req : Request) (resp : Cache.Response)
  /-- Served from the upstream. -/
  | answered (req : Request) (parts : Parts) (seen : List (Polled ε))

/-- The storage, the clock, the requests under way and the writes that background tasks will make. -/
structure Sys (ε : Type) where
  clock : ℕ
  store : Table
  calls : ℕ → Option (Stage ε)
  writes : List SetCall

/-- A storage without entries. -/
def Sys.init (ε : Type) (clock : ℕ) : Sys ε := ⟨clock, ∅, fun _ => none, []⟩

/-- What `get` of the storage finds at a key. -/
def Sys.get (s : Sys ε) (key : String) : Option String :=
  ((s.store.lookup key).filter fun e => !e.isExpired s.clock).map Entry.value

/-- A step. -/
inductive Act (ε : Type) where
  | tick (d : ℕ)
  | request (i : ℕ) (req : Request) (failure : Option String)
  | answer (i : ℕ) (parts : Parts) (polls : List (Polled ε))
  | write (w : SetCall) (ok : Bool)

/-- The gateway with its crates, its clients and its upstream. -/
structure World (Num : Type) where
  serde : Serde Num
  hashKey : String → String
  state : CacheState
  upstream : Upstream
  /-- The requests that clients may make. -/
  requests : Set Request

variable {w : World Num}

/-- What a step does. -/
inductive Step (w : World Num) : Sys ε → Act ε → Sys ε → Prop where
  /-- Time passes. -/
  | tick (s : Sys ε) (d : ℕ) : Step w s (.tick d) { s with clock := s.clock + d }
  /-- A request with a safe method is looked up. -/
  | request (s : Sys ε) (i : ℕ) (req : Request) (failure : Option String) (hreq : req ∈ w.requests)
      (hsafe : isSafeMethod req.method = true) (hnew : s.calls i = none) :
      Step w s (.request i req failure)
        { s with
          calls := Function.update s.calls i <|
            match lookup w.serde (failure.elim (.ok (s.get (w.state.key w.hashKey req))) .error) with
            | some resp => some (.hit req resp)
            | none => some (.missed req (w.state.key w.hashKey req)) }
  /-- The upstream answers a miss. -/
  | answer (s : Sys ε) (i : ℕ) (req : Request) (key : String) (parts : Parts) (polls : List (Polled ε))
      (hcall : s.calls i = some (.missed req key)) (hanswer : w.upstream.Answers req parts polls) :
      Step w s (.answer i parts polls)
        { s with
          calls := Function.update s.calls i (some (.answered req parts (passOn w.serde w.state key parts polls).1))
          writes := s.writes ++ (passOn w.serde w.state key parts polls).2 }
  /-- A background task writes. -/
  | write (s : Sys ε) (set : SetCall) (ok : Bool) (hpending : set ∈ s.writes) :
      Step w s (.write set ok)
        { s with
          store := if ok then s.store.insert set.key ⟨set.value, some (s.clock + set.ttl)⟩ else s.store
          writes := s.writes.erase set }

/-- The states of the runs whose steps all meet a condition. -/
inductive Reach (w : World Num) (ok : Sys ε → Act ε → Prop) : Sys ε → Prop where
  | init (clock : ℕ) : Reach w ok (Sys.init ε clock)
  | step {s t : Sys ε} {a : Act ε} (hs : Reach w ok s) (hstep : Step w s a t) (hok : ok s a) : Reach w ok t

/-- A request without `Range` is served the full body of its target, from the upstream as far as the stream
goes to its end. -/
def Whole (up : Upstream) : Stage ε → Prop
  | .missed _ _ => True
  | .hit req resp => hasRange req = false → resp.body = up.body req
  | .answered req _ seen => hasRange req = false → endedCleanly seen = true → dataOf seen = up.body req

/-- The step writes no part: an answer to a request with `Range` is not recorded, because the stream breaks
off, the part is larger than the cap or the answer sets a cookie; or the part is the whole. -/
def WritesNoPart (w : World Num) (s : Sys ε) : Act ε → Prop
  | .answer i parts polls =>
    ∀ req key, s.calls i = some (.missed req key) → hasRange req = true →
      endedCleanly polls = true → (dataOf polls).length ≤ w.state.maxBodyBytes →
      (∀ p ∈ parts.headers, p.1 ≠ "set-cookie") → dataOf polls = w.upstream.body req
  | _ => True

/-! ### What is passed on and what is written -/

section

variable {c : Serde Num} {st : CacheState} {key : String} {parts : Parts} {polls : List (Polled ε)}

/-- The client sees the upstream's body unchanged. -/
theorem passOn_fst (c : Serde Num) (st : CacheState) (key : String) (parts : Parts) (polls : List (Polled ε)) :
    (passOn c st key parts polls).1 = polls := by
  unfold passOn
  split
  · exact RecordingBody.seen_eq c _ polls
  · rfl

/-- What is written is the record of a whole stream within the cap, of an answer without cookies. -/
theorem mem_passOn_snd (hfused : Fused polls) {set : SetCall} (h : set ∈ (passOn c st key parts polls).2) :
    set.key = key ∧ set.value = encodeEntry parts.status parts.headers (dataOf polls) ∧
      endedCleanly polls = true ∧ (dataOf polls).length ≤ st.maxBodyBytes ∧
      ∀ p ∈ parts.headers, p.1 ≠ "set-cookie" := by
  unfold passOn at h
  split at h
  · next body hbody =>
    unfold recordIfCacheable recordWith at hbody
    split_ifs at hbody with hnot
    simp only [Bool.or_eq_true, Bool.not_eq_true', not_or, Bool.not_eq_false, List.any_eq_true, decide_eq_true_eq,
      not_exists, not_and] at hnot
    obtain rfl := Option.some.inj hbody
    rw [sets_recordWith c .any st.maxBodyBytes st.ttl key parts hfused] at h
    split_ifs at h with hcond
    · obtain rfl := List.mem_singleton.mp h
      exact ⟨rfl, rfl, hcond.1, hcond.2.1, fun p hp => hnot.2 p hp⟩
    · cases h
  · cases h

end

/-! ### The key determines the target -/

/-- A safe method has no blank. -/
theorem blank_not_mem_of_safe {method : String} (h : isSafeMethod method = true) : ' ' ∉ method.toList := by
  simp only [isSafeMethod, Bool.or_eq_true, decide_eq_true_eq] at h
  rcases h with (rfl | rfl) | rfl <;> decide

/-- A request line determines its method and its target. -/
theorem requestLine_inj {req req' : Request} (h : isSafeMethod req.method = true)
    (h' : isSafeMethod req'.method = true) (hline : requestLine req = requestLine req') :
    req.method = req'.method ∧ req.pathAndQuery = req'.pathAndQuery := by
  have hlist := congrArg String.toList hline
  simp only [requestLine, String.toList_append, List.append_assoc] at hlist
  have hsplit : req.method.toList ++ ' ' :: req.pathAndQuery.toList =
      req'.method.toList ++ ' ' :: req'.pathAndQuery.toList := hlist
  obtain ⟨hmethod, htarget⟩ := Text.append_cons_inj_of_not_mem (blank_not_mem_of_safe h) (blank_not_mem_of_safe h') hsplit
  exact ⟨String.toList_injective hmethod, String.toList_injective htarget⟩

/-- The clients' requests with safe methods. -/
def World.safe (w : World Num) : Set Request := {req | req ∈ w.requests ∧ isSafeMethod req.method = true}

/-- The digests of the clients' request lines are distinct. -/
def World.NoCollision (w : World Num) : Prop := Set.InjOn w.hashKey (requestLine '' w.safe)

/-- Requests with one key have one full body. -/
theorem body_eq_of_key (hhash : w.NoCollision) {req req' : Request} (h : req ∈ w.safe) (h' : req' ∈ w.safe)
    (hkey : w.state.key w.hashKey req = w.state.key w.hashKey req') : w.upstream.body req = w.upstream.body req' := by
  have hdigest : w.hashKey (requestLine req) = w.hashKey (requestLine req') := (String.append_right_inj _).mp hkey
  have hline := hhash (Set.mem_image_of_mem _ h) (Set.mem_image_of_mem _ h') hdigest
  obtain ⟨hmethod, htarget⟩ := requestLine_inj h.2 h'.2 hline
  rw [Upstream.body, Upstream.body, hmethod, htarget]

/-! ### The invariant -/

/-- The value is the record of the full body of a request with this key. -/
def WholeEntry (w : World Num) (key value : String) : Prop :=
  ∃ req ∈ w.safe, key = w.state.key w.hashKey req ∧
    ∃ parts : Parts, value = encodeEntry parts.status parts.headers (w.upstream.body req)

/-- A miss goes on under the key of its request. -/
def Keyed (w : World Num) : Stage ε → Prop
  | .missed req key => req ∈ w.safe ∧ key = w.state.key w.hashKey req
  | _ => True

/-- **Every entry is whole**, stored or about to be written, and so is every response. -/
structure Inv (w : World Num) (s : Sys ε) : Prop where
  stored : ∀ key e, s.store.lookup key = some e → WholeEntry w key e.value
  pending : ∀ set ∈ s.writes, WholeEntry w set.key set.value
  keyed : ∀ i stage, s.calls i = some stage → Keyed w stage
  whole : ∀ i stage, s.calls i = some stage → Whole w.upstream stage

theorem Inv.init (w : World Num) (clock : ℕ) : Inv w (Sys.init ε clock) where
  stored _ _ h := by cases h
  pending _ h := by cases h
  keyed _ _ h := by cases h
  whole _ _ h := by cases h

section

variable {s t : Sys ε} {a : Act ε}

/-- A hit has the full body. -/
theorem Inv.body_of_lookup (hserde : ReadsEntries w.serde) (hhash : w.NoCollision) (h : Inv w s) {req : Request}
    (hreq : req ∈ w.safe) {failure : Option String} {resp : Cache.Response}
    (hlookup : lookup w.serde (failure.elim (.ok (s.get (w.state.key w.hashKey req))) .error) = some resp) :
    resp.body = w.upstream.body req := by
  cases failure with
  | some e => cases hlookup
  | none =>
    simp only [Option.elim_none] at hlookup
    cases hget : s.get (w.state.key w.hashKey req) with
    | none => simp [lookup, hget] at hlookup
    | some stored =>
      obtain ⟨e, hfound, rfl⟩ := Option.map_eq_some_iff.mp hget
      have hentry := (Option.filter_eq_some_iff.mp hfound).1
      obtain ⟨req', hreq', hkey, parts, hvalue⟩ := h.stored _ e hentry
      rw [hget, lookup, hvalue, decodeEntry_encodeEntry hserde parts] at hlookup
      rw [← Option.some.inj hlookup]
      exact (body_eq_of_key hhash hreq hreq' hkey).symm

/-- A set of the calls under way at a new stage. -/
theorem Inv.update_calls (h : Inv w s) (i : ℕ) {stage : Stage ε} (hkeyed : Keyed w stage)
    (hwhole : Whole w.upstream stage) : Inv w { s with calls := Function.update s.calls i (some stage) } where
  stored := h.stored
  pending := h.pending
  keyed j stage' hj := by
    by_cases hji : j = i
    · subst hji
      simp only [Function.update_self, Option.some.injEq] at hj
      exact hj ▸ hkeyed
    · simp only [Function.update_of_ne hji] at hj
      exact h.keyed j stage' hj
  whole j stage' hj := by
    by_cases hji : j = i
    · subst hji
      simp only [Function.update_self, Option.some.injEq] at hj
      exact hj ▸ hwhole
    · simp only [Function.update_of_ne hji] at hj
      exact h.whole j stage' hj

/-- **One step that writes no part keeps every entry whole.** -/
theorem Inv.step (hserde : ReadsEntries w.serde) (hhash : w.NoCollision) (h : Inv w s) (hstep : Step w s a t)
    (hok : WritesNoPart w s a) : Inv w t := by
  cases hstep with
  | tick d => exact ⟨h.stored, h.pending, h.keyed, h.whole⟩
  | request i req failure hreq hsafe hnew =>
    split
    · next resp hlookup =>
      exact h.update_calls i trivial fun _ => h.body_of_lookup hserde hhash ⟨hreq, hsafe⟩ hlookup
    · exact h.update_calls i ⟨⟨hreq, hsafe⟩, rfl⟩ trivial
  | answer i req key parts polls hcall hanswer =>
    obtain ⟨hreq, hkey⟩ := h.keyed i _ hcall
    have hwhole : Whole w.upstream (Stage.answered req parts (passOn w.serde w.state key parts polls).1) := by
      intro hrange hend
      rw [passOn_fst] at hend ⊢
      rw [hanswer.data hend, hrange]
      rfl
    have hkeyed : Keyed w (Stage.answered req parts (passOn w.serde w.state key parts polls).1) := trivial
    have hcalls := h.update_calls i hkeyed hwhole
    refine ⟨hcalls.stored, fun set hset => ?_, hcalls.keyed, hcalls.whole⟩
    rcases List.mem_append.mp hset with hset | hset
    · exact h.pending set hset
    · obtain ⟨hsetKey, hvalue, hend, hmax, hcookie⟩ := mem_passOn_snd hanswer.fused hset
      refine ⟨req, hreq, hsetKey.trans hkey, parts, ?_⟩
      rw [hvalue]
      cases hrange : hasRange req with
      | true => rw [hok req key hcall hrange hend hmax hcookie]
      | false => rw [hanswer.data hend, hrange]; rfl
  | write set ok hpending =>
    refine ⟨fun key e he => ?_, fun set' hset' => h.pending set' (List.mem_of_mem_erase hset'), h.keyed, h.whole⟩
    cases ok with
    | false => exact h.stored key e he
    | true =>
      by_cases hk : key = set.key
      · subst hk
        simp only [if_true, AList.lookup_insert, Option.some.injEq] at he
        exact he ▸ h.pending set hpending
      · simp only [if_true, AList.lookup_insert_ne hk] at he
        exact h.stored key e he

end

/-- Every entry stays whole in a run that writes no part. -/
theorem Reach.inv (hserde : ReadsEntries w.serde) (hhash : w.NoCollision) {s : Sys ε}
    (h : Reach w (WritesNoPart w) s) : Inv w s := by
  induction h with
  | init clock => exact Inv.init w clock
  | step _ hstep hok ih => exact ih.step hserde hhash hstep hok

/-- **No part is served for the whole** in a run that writes none: a request without `Range` is served the
full body of its target, after any requests of any clients. -/
theorem whole_served (hserde : ReadsEntries w.serde) (hhash : w.NoCollision) {s : Sys ε}
    (h : Reach w (WritesNoPart w) s) {i : ℕ} {stage : Stage ε} (hcall : s.calls i = some stage) :
    Whole w.upstream stage :=
  (h.inv hserde hhash).whole i stage hcall

/-! ### An answer is replayed -/

section

variable {ok : Sys ε → Act ε → Prop} {first second : Request} {parts : Parts} {polls : List (Polled ε)}

/-- What a recorded answer writes. -/
theorem passOn_snd_of_recordable (c : Serde Num) (st : CacheState) (key : String) (hsuccess : isSuccess parts.status = true)
    (hcookie : ∀ p ∈ parts.headers, p.1 ≠ "set-cookie") (hfused : Fused polls) (hend : endedCleanly polls = true)
    (hmax : (dataOf polls).length ≤ st.maxBodyBytes) :
    (passOn c st key parts polls).2 = [⟨key, encodeEntry parts.status parts.headers (dataOf polls), st.ttl⟩] := by
  rw [passOn, recordIfCacheable, recordWith_eq_some hsuccess hcookie]
  simp only
  rw [sets_recordWith c .any st.maxBodyBytes st.ttl key parts hfused, if_pos ⟨hend, hmax, rfl⟩]

/-- What was written just now is found. -/
theorem Sys.get_written (s : Sys ε) (key value : String) {ttl : ℕ} (writes : List SetCall) (httl : 0 < ttl) :
    Sys.get { s with store := s.store.insert key ⟨value, some (s.clock + ttl)⟩, writes } key = some value := by
  have hlive : ¬ s.clock + ttl ≤ s.clock := by omega
  simp [Sys.get, Entry.isExpired, Option.filter, hlive]

/-- A request whose lookup finds nothing. -/
theorem Step.of_miss {s : Sys ε} (i : ℕ) {req : Request} (hreq : req ∈ w.safe) (hnew : s.calls i = none)
    (hget : s.get (w.state.key w.hashKey req) = none) :
    Step w s (.request i req none)
      { s with calls := Function.update s.calls i (some (.missed req (w.state.key w.hashKey req))) } := by
  have hstep := Step.request s i req none hreq.1 hreq.2 hnew
  simpa only [Option.elim_none, hget, lookup] using hstep

/-- A request whose lookup finds a record. -/
theorem Step.of_hit {s : Sys ε} (i : ℕ) {req : Request} {stored : String} {resp : Cache.Response}
    (hreq : req ∈ w.safe) (hnew : s.calls i = none) (hget : s.get (w.state.key w.hashKey req) = some stored)
    (hdecode : decodeEntry w.serde stored = some resp) :
    Step w s (.request i req none) { s with calls := Function.update s.calls i (some (.hit req resp)) } := by
  have hstep := Step.request s i req none hreq.1 hreq.2 hnew
  simpa only [Option.elim_none, hget, lookup, hdecode] using hstep

/-- The answer to one request is replayed to the next one with its key. -/
theorem reach_hit (hserde : ReadsEntries w.serde) (httl : 0 < w.state.ttl) (hfirst : first ∈ w.safe)
    (hsecond : second ∈ w.safe) (hkey : w.state.key w.hashKey second = w.state.key w.hashKey first)
    (hanswer : w.upstream.Answers first parts polls)
    (hwrites : (passOn w.serde w.state (w.state.key w.hashKey first) parts polls).2 =
      [⟨w.state.key w.hashKey first, encodeEntry parts.status parts.headers (dataOf polls), w.state.ttl⟩])
    (hrequest : ∀ (s : Sys ε) i req failure, ok s (.request i req failure))
    (hanswered : ∀ (s : Sys ε) key, s.calls 0 = some (.missed first key) → ok s (.answer 0 parts polls))
    (hwrite : ∀ (s : Sys ε) set b, ok s (.write set b)) :
    ∃ s resp, Reach w ok s ∧ s.calls 1 = some (.hit second resp) ∧ resp.body = dataOf polls := by
  have hinit : Reach w ok (Sys.init ε 0) := .init 0
  have hmiss := hinit.step (Step.of_miss 0 hfirst rfl rfl) (hrequest _ 0 first none)
  have hpass := hmiss.step (Step.answer _ 0 first (w.state.key w.hashKey first) parts polls rfl hanswer)
    (hanswered _ _ rfl)
  rw [hwrites] at hpass
  have hstore := hpass.step (Step.write _ _ true (List.mem_singleton_self _)) (hwrite _ _ _)
  refine ⟨_, _, hstore.step (Step.of_hit 1 hsecond rfl ?_ (decodeEntry_encodeEntry hserde parts (dataOf polls)))
    (hrequest _ 1 second none), rfl, rfl⟩
  rw [hkey]
  exact Sys.get_written _ _ _ _ httl

end

/-! ### A file and its first bytes -/

/-- An answer without headers. -/
def headless (status : ℕ) (h : statusFromU16 status = some status) : Parts where
  status
  headers := []
  statusValid := h
  namesValid _ hp := by cases hp
  valuesValid _ hp := by cases hp

/-- A gateway before a file of five bytes, for the requests of that file; SHA-256 makes this digest of
their one line. -/
def fileWorld : World ℕ where
  serde := compact
  hashKey line :=
    if line = "GET /f" then "915fa4b80e6252869a78ba0c459aa6a4bbd7d7a902bd52eb5964a2d231c648bf"
    else "no digest of " ++ line
  state := .new { } "f" "default"
  upstream := ⟨fun _ _ => [104, 101, 108, 108, 111], fun _ => [104, 101]⟩
  requests := {req | requestLine req = "GET /f"}

/-- The whole file is asked for. -/
def wholeFile : Request := { path := "/f" }

/-- Its first two bytes are. -/
def firstBytes : Request := { path := "/f", headers := [("range", headerValue "bytes=0-1")] }

theorem fileWorld_ttl : 0 < fileWorld.state.ttl := Nat.mul_pos (by decide) (by decide)

theorem fileWorld_noCollision : fileWorld.NoCollision := by
  rintro _ ⟨req, ⟨hreq, -⟩, rfl⟩ _ ⟨req', ⟨hreq', -⟩, rfl⟩ -
  exact hreq.trans hreq'.symm

theorem wholeFile_mem : wholeFile ∈ fileWorld.requests := by
  change requestLine wholeFile = "GET /f"
  decide

/-- A body in one frame. -/
def oneFrame (bytes : List UInt8) : List (Polled String) := [.frame (.data bytes) true]

theorem dataOf_oneFrame (bytes : List UInt8) : dataOf (oneFrame bytes) = bytes := List.append_nil bytes

/-- What `/f` was answered in one frame is replayed when the whole file is asked for. -/
theorem reach_wholeFile (ok : Sys String → Act String → Prop) {first : Request} {parts : Parts} {bytes : List UInt8}
    (hanswer : fileWorld.upstream.Answers first parts (oneFrame bytes)) (hfirst : isSafeMethod first.method = true)
    (hline : requestLine wholeFile = requestLine first) (hsuccess : isSuccess parts.status = true)
    (hheaders : parts.headers = []) (hmax : bytes.length ≤ fileWorld.state.maxBodyBytes)
    (hrequest : ∀ s i req failure, ok s (.request i req failure))
    (hanswered : ∀ s key, s.calls 0 = some (.missed first key) → ok s (.answer 0 parts (oneFrame bytes)))
    (hwrite : ∀ s set b, ok s (.write set b)) :
    ∃ s resp, Reach fileWorld ok s ∧ s.calls 1 = some (.hit wholeFile resp) ∧ resp.body = bytes := by
  have hkey : fileWorld.state.key fileWorld.hashKey wholeFile = fileWorld.state.key fileWorld.hashKey first := by
    rw [CacheState.key, CacheState.key, hline]
  have hmem : first ∈ fileWorld.requests := hline.symm.trans wholeFile_mem
  have hmax' : (dataOf (oneFrame bytes)).length ≤ fileWorld.state.maxBodyBytes := by rwa [dataOf_oneFrame]
  have hwrites := passOn_snd_of_recordable fileWorld.serde fileWorld.state (fileWorld.state.key fileWorld.hashKey first)
    hsuccess (by rw [hheaders]; exact fun _ h => absurd h List.not_mem_nil) hanswer.fused rfl hmax'
  have hhit := reach_hit (w := fileWorld) compact_readsEntries fileWorld_ttl ⟨hmem, hfirst⟩
    ⟨wholeFile_mem, rfl⟩ hkey hanswer hwrites
    hrequest hanswered hwrite
  rwa [dataOf_oneFrame] at hhit

/-- The whole file, asked for twice, is served whole from the cache. -/
theorem whole_served_twice :
    ∃ (s : Sys String) (resp : Cache.Response), Reach fileWorld (WritesNoPart fileWorld) s ∧
      s.calls 1 = some (.hit wholeFile resp) ∧ resp.body = [104, 101, 108, 108, 111] := by
  have hanswer : fileWorld.upstream.Answers wholeFile (headless 200 rfl) (oneFrame [104, 101, 108, 108, 111]) :=
    { fused := fun _ h => absurd h List.not_mem_nil
      status := by decide
      data := fun _ => by decide }
  obtain ⟨s, resp, hreach, hcall, -⟩ := reach_wholeFile (WritesNoPart fileWorld) hanswer rfl rfl rfl rfl (by decide)
    (fun _ _ _ _ => trivial) (fun s key h req key' hcall hrange => by
      rw [h] at hcall
      cases hcall
      exact absurd hrange (by decide)) (fun _ _ _ => trivial)
  have hwhole : Whole fileWorld.upstream (Stage.hit wholeFile resp) :=
    whole_served (w := fileWorld) compact_readsEntries fileWorld_noCollision hreach hcall
  exact ⟨s, resp, hreach, hcall, hwhole (by decide)⟩

/-- **A part is served for the whole**: after a request for the first bytes, the file is those bytes. -/
theorem part_served_for_whole :
    ∃ (s : Sys String) (resp : Cache.Response), Reach fileWorld (fun _ _ => True) s ∧
      s.calls 1 = some (.hit wholeFile resp) ∧ resp.body = [104, 101] ∧
      ¬ Whole fileWorld.upstream (Stage.hit (ε := String) wholeFile resp) := by
  have hanswer : fileWorld.upstream.Answers firstBytes (headless 206 rfl) (oneFrame [104, 101]) :=
    { fused := fun _ h => absurd h List.not_mem_nil
      status := by decide
      data := fun _ => by decide }
  obtain ⟨s, resp, hreach, hcall, hbody⟩ := reach_wholeFile (fun _ _ => True) hanswer rfl rfl rfl rfl (by decide)
    (fun _ _ _ _ => trivial) (fun _ _ _ => trivial) (fun _ _ _ => trivial)
  refine ⟨s, resp, hreach, hcall, hbody, fun hwhole => ?_⟩
  have hfull := hwhole (by decide)
  rw [hbody] at hfull
  exact absurd hfull (by decide)

end G2way.Middleware.CacheRuns
