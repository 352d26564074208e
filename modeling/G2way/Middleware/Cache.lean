import G2way.GraphQl.Request
import G2way.Lib.Base64
import G2way.Lib.JsonRead
import G2way.Lib.Service

/-!
# The response cache

`g2-middleware/src/cache.rs`: "the upstream body is streamed to the client
unchanged through a recording wrapper, and only when the stream completes cleanly
within the size cap is the entry written to storage". The wrapper and the record
are shared with the GraphQL cache, whose policy also reads the body.

## The model

The inner body is what its polls answer (`Polled`): a frame, together with what
`is_end_stream` says after it, an error, the end, or not yet. `RecordingBody` is a
service over polls: it answers each with what the client is given, and with the
`set` that the background task makes of a completed body (bodies are only driven
inside the server's runtime, so a spawned task runs). A response's head carries
the guarantees of the `http` crate's types. An entry is JSON in storage, its
header values and its body in base64.

## What is proved

`sets_of_recording` gives the writes of a whole run in closed form, and
`decodeEntry_encodeEntry` is the round trip of the record. Together
(`recorded_whole_or_nothing`): the client sees the polls unchanged, and there is
one record of the whole response or none. A stored `x-g2-cache` does not survive:
the marker of a hit replaces it (`upstream_marker_replaced`).
-/

namespace G2way.Middleware.Cache

open G2way.Core G2way.Lib
open G2way.GraphQl (Literal Serde uniqueMember requiredMember stringOf)

variable {Num ε : Type}

/-! ### Heads -/

/-- `StatusCode::from_u16`. -/
def statusFromU16 (n : ℕ) : Option ℕ := if 100 ≤ n ∧ n < 1000 then some n else none

/-- The head of a response, as the types of the `http` crate have it. -/
structure Parts where
  status : ℕ
  headers : HeaderMap
  statusValid : statusFromU16 status = some status
  /-- Names are lowercase tokens. -/
  namesValid : ∀ p ∈ headers, headerName p.1 = some p.1
  /-- Values have no control characters but the tab. -/
  valuesValid : ∀ p ∈ headers, headerValueFromBytes p.2 = some p.2

/-- `StatusCode::is_success`. -/
def isSuccess (status : ℕ) : Bool := 200 ≤ status && status < 300

/-- A response whose body is there at once (`Full`). -/
structure Response where
  status : ℕ
  headers : HeaderMap
  body : List UInt8
  deriving DecidableEq, Repr

/-! ### Records -/

/-- `CACHE_STATUS_HEADER`. -/
def cacheStatusHeader : String := "x-g2-cache"

/-- One cached response on the wire. -/
structure CachedEntry where
  status : ℕ
  /-- `(name, base64(value bytes))` pairs, in response order. -/
  headers : List (String × String)
  bodyB64 : String
  deriving DecidableEq, Repr

/-- The derived `Serialize` of a record. -/
def CachedEntry.json (e : CachedEntry) : Json ℕ :=
  .object [("status", .number e.status),
    ("headers", .array (e.headers.map fun p => .array [.string p.1, .string p.2])),
    ("body_b64", .string e.bodyB64)]

/-- `serde_json::to_string`. -/
def CachedEntry.text (e : CachedEntry) : String := e.json.toText toString

/-- `encode_entry`. -/
def encodeEntry (status : ℕ) (headers : HeaderMap) (body : List UInt8) : String :=
  CachedEntry.text
    { status
      headers := headers.map fun p => (p.1, Base64.encode p.2)
      bodyB64 := Base64.encode body }

/-- `u16`. -/
def u16Of : Json Literal → Option ℕ
  | .number l => if l.integral ∧ ¬ l.negative ∧ l.exponent = 0 ∧ l.digits < 65536 then some l.digits else none
  | _ => none

/-- `(String, String)`. -/
def pairOf : Json Literal → Option (String × String)
  | .array [.string a, .string b] => some (a, b)
  | _ => none

/-- `Vec<(String, String)>`. -/
def pairsOf : Json Literal → Option (List (String × String))
  | .array items => items.mapM pairOf
  | _ => none

/-- The derived `Deserialize` of a record. -/
def entryOf : Json Literal → Option CachedEntry
  | .object members => do
    let status ← requiredMember u16Of members "status"
    let headers ← requiredMember pairsOf members "headers"
    let bodyB64 ← requiredMember stringOf members "body_b64"
    return ⟨status, headers, bodyB64⟩
  | .array [status, headers, bodyB64] => do
    let status ← u16Of status
    let headers ← pairsOf headers
    let bodyB64 ← stringOf bodyB64
    return ⟨status, headers, bodyB64⟩
  | _ => none

/-- The headers of a record, appended one by one. -/
def appendStored (headers : HeaderMap) (p : String × String) : Option HeaderMap := do
  let name ← headerName p.1
  let bytes ← Base64.decode p.2
  let value ← headerValueFromBytes bytes
  return headers.append name value

/-- `decode_entry`: the stored response, marked as a hit. -/
def decodeEntry (c : Serde Num) (stored : String) : Option Response := do
  let json ← c.parse (Text.utf8 stored)
  let entry ← entryOf json
  let body ← Base64.decode entry.bodyB64
  let status ← statusFromU16 entry.status
  let headers ← entry.headers.foldlM appendStored []
  return ⟨status, headers.insert cacheStatusHeader (headerValue "hit"), body⟩

/-! ### The policy -/

/-- "Gate deciding, from the completed body, whether an entry is written." -/
inductive WritePolicy where
  /-- Every completed body is stored. -/
  | any
  /-- Only a JSON object with no (or a `null`/empty) top-level `errors` member is stored. -/
  | graphQlSuccess
  deriving DecidableEq, Repr

/-- `serde_json::from_slice::<Value>`. -/
def valueFromSlice (c : Serde Num) (body : List UInt8) : Option (Json Num) :=
  (c.parse body).bind c.value

/-- `allows`. -/
def WritePolicy.allows (c : Serde Num) : WritePolicy → List UInt8 → Bool
  | .any, _ => true
  | .graphQlSuccess, body =>
    match valueFromSlice c body with
    | some (.object map) =>
      match map.lookup "errors" with
      | none => true
      | some .null => true
      | some (.array errors) => errors.isEmpty
      | some _ => false
    | _ => false

/-! ### The tee -/

/-- A frame of a body. -/
inductive Frame where
  | data (bytes : List UInt8)
  | trailers (headers : HeaderMap)
  deriving DecidableEq, Repr

/-- The bytes of a data frame. -/
def Frame.bytes : Frame → List UInt8
  | .data bytes => bytes
  | .trailers _ => []

/-- What a poll of a body answers. -/
inductive Polled (ε : Type) where
  /-- A frame, and what `is_end_stream` says after it. -/
  | frame (frame : Frame) (endStream : Bool)
  /-- An error. -/
  | error (e : ε)
  /-- No frame is left. -/
  | finished
  /-- No frame yet. -/
  | pending
  deriving DecidableEq, Repr

/-- Everything needed to write one entry once its body has fully streamed. -/
structure CacheWrite where
  key : String
  ttl : ℕ
  status : ℕ
  headers : HeaderMap
  policy : WritePolicy
  deriving DecidableEq, Repr

/-- A `set` of the storage. -/
structure SetCall where
  key : String
  value : String
  ttl : ℕ
  deriving DecidableEq, Repr

/-- `spawn`: what the background task writes. -/
def CacheWrite.spawn (c : Serde Num) (w : CacheWrite) (body : List UInt8) : Option SetCall :=
  if w.policy.allows c body then some ⟨w.key, encodeEntry w.status w.headers body, w.ttl⟩ else none

/-- The tee around the upstream body. -/
structure RecordingBody where
  buf : List UInt8 := []
  max : ℕ
  /-- Present while the body is still worth caching. -/
  write : Option CacheWrite
  deriving DecidableEq, Repr

namespace RecordingBody

/-- No copy is kept any more. -/
def dropped (body : RecordingBody) : RecordingBody := { body with buf := [], write := none }

/-- A frame's data is copied, unless the copy would outgrow the cap. -/
def record (body : RecordingBody) : Frame → RecordingBody
  | .data bytes =>
    if body.write.isSome then
      if body.buf.length + bytes.length > body.max then body.dropped
      else { body with buf := body.buf ++ bytes }
    else body
  | .trailers _ => body

/-- The write is taken, with what was copied. -/
def complete (c : Serde Num) (body : RecordingBody) : Option SetCall × RecordingBody :=
  match body.write with
  | some write => (write.spawn c body.buf, body.dropped)
  | none => (none, body)

/-- `poll_frame`: what the client is given, what is written, and the wrapper after it. -/
def pollFrame (c : Serde Num) (body : RecordingBody) : Polled ε → (Polled ε × Option SetCall) × RecordingBody
  | .frame frame endStream =>
    let body := body.record frame
    if endStream then ((.frame frame endStream, (body.complete c).1), (body.complete c).2)
    else ((.frame frame endStream, none), body)
  | .error e => ((.error e, none), body.dropped)
  | .finished => ((.finished, (body.complete c).1), (body.complete c).2)
  | .pending => ((.pending, none), body)

/-- What the client sees of a run. -/
def seen (c : Serde Num) (body : RecordingBody) (polls : List (Polled ε)) : List (Polled ε) :=
  (answered (pollFrame c) body polls).map fun a => a.2.1

/-- What is written in a run. -/
def sets (c : Serde Num) (body : RecordingBody) (polls : List (Polled ε)) : List SetCall :=
  (answered (pollFrame c) body polls).filterMap fun a => a.2.2

end RecordingBody

/-- The wrapper of a response worth caching: "only 2xx, and never a response that sets client
state". -/
def recordWith (policy : WritePolicy) (max ttl : ℕ) (key : String) (parts : Parts) : Option RecordingBody :=
  if !isSuccess parts.status || parts.headers.any fun p => p.1 = "set-cookie" then none
  else some { max, write := some { key, ttl, status := parts.status, headers := parts.headers, policy } }

/-- `record_if_cacheable`. -/
def recordIfCacheable : ℕ → ℕ → String → Parts → Option RecordingBody := recordWith .any

/-- `GraphQlCache::record`. -/
def graphQlCacheRecord : ℕ → ℕ → String → Parts → Option RecordingBody := recordWith .graphQlSuccess

/-! ### Streams -/

/-- The data of a stream. -/
def dataOf (polls : List (Polled ε)) : List UInt8 :=
  polls.flatMap fun
    | .frame frame _ => frame.bytes
    | _ => []

/-- The poll says that the stream is over: the last frame does, or the end. -/
def signalsEnd : Polled ε → Bool
  | .frame _ endStream => endStream
  | .finished => true
  | _ => false

/-- The poll failed. -/
def failed : Polled ε → Bool
  | .error _ => true
  | _ => false

/-- The stream was polled to its end, with no error. -/
def endedCleanly (polls : List (Polled ε)) : Bool := polls.any signalsEnd && !polls.any failed

/-- The contract of `Body`: behind the frame with which `is_end_stream` holds, and behind the end,
there is nothing but the end. -/
def Fused : List (Polled ε) → Prop
  | [] => True
  | p :: rest => if signalsEnd p then ∀ q ∈ rest, q = .finished else Fused rest

section Finished

variable {rest : List (Polled ε)} (h : ∀ q ∈ rest, q = .finished)
include h

theorem dataOf_of_finished : dataOf rest = [] := by
  rw [dataOf, List.flatMap_eq_nil_iff]
  intro q hq
  rw [h q hq]

theorem any_failed_of_finished : rest.any failed = false := by
  rw [List.any_eq_false]
  intro q hq
  rw [h q hq]
  exact Bool.false_ne_true

end Finished

namespace RecordingBody

variable {c : Serde Num} {body : RecordingBody} {polls : List (Polled ε)}

/-- The client is given what the inner body gave. -/
theorem pollFrame_seen (c : Serde Num) (body : RecordingBody) (p : Polled ε) :
    (body.pollFrame c p).1.1 = p := by
  cases p with
  | frame frame endStream => cases endStream <;> rfl
  | error e => rfl
  | finished => rfl
  | pending => rfl

theorem seen_eq (c : Serde Num) (body : RecordingBody) (polls : List (Polled ε)) : body.seen c polls = polls := by
  induction polls generalizing body with
  | nil => rfl
  | cons p polls ih =>
    have htail := ih (body.pollFrame c p).2
    simp only [seen, answered, List.map_cons, pollFrame_seen] at htail ⊢
    rw [htail]

theorem sets_cons (c : Serde Num) (body : RecordingBody) (p : Polled ε) (polls : List (Polled ε)) :
    body.sets c (p :: polls) = (body.pollFrame c p).1.2.toList ++ (body.pollFrame c p).2.sets c polls := by
  simp only [sets, answered, List.filterMap_cons]
  cases (body.pollFrame c p).1.2 <;> rfl

/-! #### Nothing is written twice -/

theorem dropped_write (body : RecordingBody) : body.dropped.write = none := rfl

theorem record_write_none (h : body.write = none) (frame : Frame) : body.record frame = body := by
  cases frame with
  | data bytes => simp [record, h]
  | trailers headers => rfl

theorem complete_write_none (c : Serde Num) (h : body.write = none) : body.complete c = (none, body) := by
  simp [complete, h]

/-- A wrapper that has given up the write makes none. -/
theorem pollFrame_write_none (c : Serde Num) (h : body.write = none) (p : Polled ε) :
    (body.pollFrame c p).1.2 = none ∧ (body.pollFrame c p).2.write = none := by
  cases p with
  | frame frame endStream =>
    simp only [pollFrame, record_write_none h, complete_write_none c h]
    cases endStream with
    | true => exact ⟨rfl, h⟩
    | false => exact ⟨rfl, h⟩
  | error e => exact ⟨rfl, rfl⟩
  | finished =>
    rw [pollFrame, complete_write_none c h]
    exact ⟨rfl, h⟩
  | pending => exact ⟨rfl, h⟩

theorem sets_write_none (c : Serde Num) (h : body.write = none) (polls : List (Polled ε)) : body.sets c polls = [] := by
  induction polls generalizing body with
  | nil => rfl
  | cons p polls ih =>
    obtain ⟨hset, hwrite⟩ := pollFrame_write_none c h p
    rw [sets_cons, hset, ih hwrite]
    rfl

/-! #### The writes of a run -/

/-- A completed body is written, and nothing after it. -/
theorem sets_complete {w : CacheWrite} (c : Serde Num) (h : body.write = some w) (polls : List (Polled ε)) :
    (body.complete c).1.toList ++ (body.complete c).2.sets c polls = (w.spawn c body.buf).toList := by
  simp only [complete, h]
  rw [sets_write_none c (dropped_write body), List.append_nil]

/-- What a stream that goes on from a copy `buf` writes. -/
def expected (c : Serde Num) (w : CacheWrite) (max : ℕ) (buf : List UInt8) (polls : List (Polled ε)) :
    List SetCall :=
  if endedCleanly polls ∧ (buf ++ dataOf polls).length ≤ max then (w.spawn c (buf ++ dataOf polls)).toList else []

theorem expected_of_overflow {w : CacheWrite} {max : ℕ} {buf : List UInt8}
    (h : max < (buf ++ dataOf polls).length) : expected c w max buf polls = [] := by
  rw [expected, if_neg]
  rintro ⟨-, hle⟩
  omega

/-- A frame that does not end the stream leaves the rest to do. -/
theorem expected_frame {w : CacheWrite} {max : ℕ} {buf : List UInt8} (frame : Frame) :
    expected c w max buf (.frame frame false :: polls) = expected c w max (buf ++ frame.bytes) polls := by
  simp [expected, endedCleanly, signalsEnd, failed, dataOf]

/-- A frame that ends the stream completes it. -/
theorem expected_last {w : CacheWrite} {max : ℕ} {buf : List UInt8} (frame : Frame)
    (h : ∀ q ∈ polls, q = .finished) (hmax : (buf ++ frame.bytes).length ≤ max) :
    expected c w max buf (.frame frame true :: polls) = (w.spawn c (buf ++ frame.bytes)).toList := by
  have hdata := dataOf_of_finished h
  have hfailed := any_failed_of_finished h
  have hall : dataOf (.frame frame true :: polls) = frame.bytes ++ dataOf polls := rfl
  rw [expected, hall, hdata, List.append_nil, if_pos]
  refine ⟨?_, hmax⟩
  simp [endedCleanly, signalsEnd, failed, hfailed]

theorem expected_finished {w : CacheWrite} {max : ℕ} {buf : List UInt8} (hbuf : buf.length ≤ max)
    (h : ∀ q ∈ polls, q = .finished) :
    expected c w max buf (.finished :: polls) = (w.spawn c buf).toList := by
  have hdata := dataOf_of_finished h
  have hfailed := any_failed_of_finished h
  have hall : dataOf (.finished :: polls) = dataOf polls := rfl
  rw [expected, hall, hdata, List.append_nil, if_pos]
  refine ⟨?_, hbuf⟩
  simp [endedCleanly, signalsEnd, failed, hfailed]

/-- A frame is copied whole, or the copy is given up. -/
theorem record_eq {w : CacheWrite} (h : body.write = some w) (hbuf : body.buf.length ≤ body.max) (frame : Frame) :
    body.record frame =
      if (body.buf ++ frame.bytes).length ≤ body.max then { body with buf := body.buf ++ frame.bytes }
      else body.dropped := by
  cases frame with
  | data bytes =>
    rw [record, if_pos (by rw [h]; rfl)]
    by_cases hmax : body.buf.length + bytes.length > body.max
    · rw [if_pos hmax, if_neg]
      simpa [Frame.bytes] using hmax
    · rw [if_neg hmax, if_pos]
      · rfl
      · simpa [Frame.bytes] using hmax
  | trailers headers =>
    rw [if_pos (by simpa [Frame.bytes] using hbuf)]
    simp [record, Frame.bytes]

/-- **The writes of a run**: one `set` with the whole data, exactly if the stream ended cleanly and
its data is within the cap; the policy has the last word. -/
theorem sets_of_recording {w : CacheWrite} (h : body.write = some w) (hbuf : body.buf.length ≤ body.max)
    (hfused : Fused polls) : body.sets c polls = expected c w body.max body.buf polls := by
  induction polls generalizing body with
  | nil => rfl
  | cons p polls ih =>
    rw [sets_cons]
    cases p with
    | pending =>
      rw [pollFrame, ih h hbuf hfused]
      rfl
    | error e =>
      rw [pollFrame, sets_write_none c (dropped_write body)]
      simp [expected, endedCleanly, failed]
    | finished =>
      rw [expected_finished hbuf hfused]
      exact sets_complete c h polls
    | frame frame endStream =>
      rw [pollFrame, record_eq h hbuf frame]
      by_cases hmax : (body.buf ++ frame.bytes).length ≤ body.max
      · rw [if_pos hmax]
        cases endStream with
        | true =>
          rw [expected_last frame hfused hmax]
          exact sets_complete c (show ({ body with buf := body.buf ++ frame.bytes } : RecordingBody).write = some w from h)
            polls
        | false =>
          rw [expected_frame]
          exact ih (show ({ body with buf := body.buf ++ frame.bytes } : RecordingBody).write = some w from h) hmax hfused
      · have hover : body.max < (body.buf ++ dataOf (.frame frame endStream :: polls)).length := by
          simp only [dataOf, List.flatMap_cons, List.length_append] at hmax ⊢
          omega
        rw [if_neg hmax, expected_of_overflow hover, complete_write_none c (dropped_write body)]
        cases endStream with
        | true => exact sets_write_none c (dropped_write body) polls
        | false => exact sets_write_none c (dropped_write body) polls

end RecordingBody

/-! ### The round trip -/

/-- A whole number, as a text has it. -/
def literal (n : ℕ) : Literal := { digits := n }

/-- `serde_json` reads the records it writes. -/
def ReadsEntries (c : Serde Num) : Prop :=
  ∀ e : CachedEntry, c.parse (Text.utf8 e.text) = some (e.json.map literal)

theorem pairsOf_map (pairs : List (String × String)) :
    pairsOf (.array (Json.mapItems literal (pairs.map fun p => .array [.string p.1, .string p.2]))) = some pairs := by
  rw [pairsOf]
  induction pairs with
  | nil => rfl
  | cons p pairs ih =>
    simp only [List.map_cons, Json.mapItems, Json.map, List.mapM_cons, ih, pairOf]
    rfl

/-- A record is read as it was. -/
theorem entryOf_json {e : CachedEntry} (h : e.status < 65536) : entryOf (e.json.map literal) = some e := by
  have hpairs := pairsOf_map e.headers
  simp [CachedEntry.json, Json.map, Json.mapMembers, entryOf, requiredMember, uniqueMember, u16Of,
    stringOf, literal, h] at hpairs ⊢
  simp [hpairs]

theorem appendStored_encode {headers : HeaderMap} {p : String × HeaderValue} (hname : headerName p.1 = some p.1)
    (hvalue : headerValueFromBytes p.2 = some p.2) :
    appendStored headers (p.1, Base64.encode p.2) = some (headers ++ [p]) := by
  simp [appendStored, hname, hvalue, Base64.decode_encode, HeaderMap.append]

/-- The headers are appended in their order. -/
theorem foldlM_appendStored {headers : HeaderMap} (hnames : ∀ p ∈ headers, headerName p.1 = some p.1)
    (hvalues : ∀ p ∈ headers, headerValueFromBytes p.2 = some p.2) (acc : HeaderMap) :
    (headers.map fun p => (p.1, Base64.encode p.2)).foldlM appendStored acc = some (acc ++ headers) := by
  induction headers generalizing acc with
  | nil => simp
  | cons p headers ih =>
    rw [List.map_cons, List.foldlM_cons,
      appendStored_encode (hnames p (List.mem_cons_self ..)) (hvalues p (List.mem_cons_self ..))]
    have htail := ih (fun q hq => hnames q (List.mem_cons_of_mem _ hq))
      (fun q hq => hvalues q (List.mem_cons_of_mem _ hq)) (acc ++ [p])
    rw [Option.bind_eq_bind, Option.bind_some, htail, List.append_assoc]
    rfl

/-- **The round trip**: a record is read back as the response it was made of, marked as a hit. -/
theorem decodeEntry_encodeEntry {c : Serde Num} (hc : ReadsEntries c) (parts : Parts) (body : List UInt8) :
    decodeEntry c (encodeEntry parts.status parts.headers body) =
      some ⟨parts.status, HeaderMap.insert parts.headers cacheStatusHeader (headerValue "hit"), body⟩ := by
  have hstatus : parts.status < 65536 := by
    have hvalid := parts.statusValid
    unfold statusFromU16 at hvalid
    split_ifs at hvalid with hrange
    omega
  have hheaders := foldlM_appendStored parts.namesValid parts.valuesValid []
  rw [List.nil_append] at hheaders
  rw [decodeEntry, encodeEntry, hc]
  simp only [Option.bind_eq_bind, Option.bind_some]
  rw [entryOf_json hstatus]
  simp only [Option.bind_some, Base64.decode_encode, parts.statusValid, hheaders]
  rfl

/-! ### The whole response or nothing -/

/-- What recording a response comes to: the client sees its polls unchanged, and the storage gets
one record of the whole response, or none. -/
structure WholeOrNothing (c : Serde Num) (policy : WritePolicy) (max ttl : ℕ) (key : String) (parts : Parts)
    (body : RecordingBody) (polls : List (Polled ε)) : Prop where
  unchanged : body.seen c polls = polls
  atMostOne : (body.sets c polls).length ≤ 1
  writtenIff : body.sets c polls ≠ [] ↔
    endedCleanly polls ∧ (dataOf polls).length ≤ max ∧ policy.allows c (dataOf polls)
  /-- The record is the response, but for the marker of a hit. -/
  replayed : ∀ set ∈ body.sets c polls, set.key = key ∧ set.ttl = ttl ∧
    ∃ hit, decodeEntry c set.value = some hit ∧ hit.status = parts.status ∧ hit.body = dataOf polls ∧
      ∀ name, hit.headers.getAll name =
        if name = cacheStatusHeader then [headerValue "hit"] else parts.headers.getAll name

/-- A `2xx` without `Set-Cookie` is recorded. -/
theorem recordWith_eq_some {policy : WritePolicy} {max ttl : ℕ} {key : String} {parts : Parts}
    (hsuccess : isSuccess parts.status = true) (hcookie : ∀ p ∈ parts.headers, p.1 ≠ "set-cookie") :
    recordWith policy max ttl key parts =
      some { max, write := some { key, ttl, status := parts.status, headers := parts.headers, policy } } := by
  have hnone : (parts.headers.any fun p => p.1 = "set-cookie") = false := by
    rw [List.any_eq_false]
    intro p hp
    simpa using hcookie p hp
  rw [recordWith, hsuccess, hnone]
  rfl

/-- The writes of a recorded response. -/
theorem sets_recordWith (c : Serde Num) (policy : WritePolicy) (max ttl : ℕ) (key : String) (parts : Parts)
    {polls : List (Polled ε)} (hfused : Fused polls) :
    RecordingBody.sets c
        { max, write := some { key, ttl, status := parts.status, headers := parts.headers, policy } } polls =
      if endedCleanly polls ∧ (dataOf polls).length ≤ max ∧ policy.allows c (dataOf polls) then
        [⟨key, encodeEntry parts.status parts.headers (dataOf polls), ttl⟩]
      else [] := by
  rw [RecordingBody.sets_of_recording rfl (Nat.zero_le _) hfused, RecordingBody.expected, List.nil_append,
    CacheWrite.spawn]
  by_cases hend : endedCleanly polls = true ∧ (dataOf polls).length ≤ max
  · by_cases hallows : policy.allows c (dataOf polls) = true
    · rw [if_pos hend, if_pos hallows, if_pos ⟨hend.1, hend.2, hallows⟩]
      rfl
    · rw [if_pos hend, if_neg hallows, if_neg fun h => hallows h.2.2]
      rfl
  · rw [if_neg hend, if_neg fun h => hend ⟨h.1, h.2.1⟩]

/-- **A cache entry is the whole response or nothing**, for either policy, however the body is
framed and however the stream ends. -/
theorem recorded_whole_or_nothing {c : Serde Num} (hc : ReadsEntries c) (policy : WritePolicy) (max ttl : ℕ)
    (key : String) (parts : Parts) (hsuccess : isSuccess parts.status = true)
    (hcookie : ∀ p ∈ parts.headers, p.1 ≠ "set-cookie") {polls : List (Polled ε)} (hfused : Fused polls) :
    ∃ body, recordWith policy max ttl key parts = some body ∧
      WholeOrNothing c policy max ttl key parts body polls := by
  refine ⟨_, recordWith_eq_some hsuccess hcookie, ?_⟩
  have hsets := sets_recordWith c policy max ttl key parts hfused
  have hround := decodeEntry_encodeEntry hc parts (dataOf polls)
  by_cases hcond : endedCleanly polls ∧ (dataOf polls).length ≤ max ∧ policy.allows c (dataOf polls)
  · rw [if_pos hcond] at hsets
    refine ⟨RecordingBody.seen_eq c _ polls, ?_, ?_, ?_⟩
    · rw [hsets]
      exact Nat.le_refl 1
    · rw [hsets]
      exact ⟨fun _ => hcond, fun _ => List.cons_ne_nil _ _⟩
    · intro set hset
      rw [hsets] at hset
      obtain rfl := List.mem_singleton.1 hset
      refine ⟨rfl, rfl, _, hround, rfl, rfl, fun name => ?_⟩
      exact HeaderMap.getAll_insert parts.headers name cacheStatusHeader (headerValue "hit")
  · rw [if_neg hcond] at hsets
    refine ⟨RecordingBody.seen_eq c _ polls, ?_, ?_, ?_⟩
    · rw [hsets]
      exact Nat.zero_le 1
    · rw [hsets]
      exact ⟨fun hne => absurd rfl hne, fun h => absurd h hcond⟩
    · intro set hset
      rw [hsets] at hset
      cases hset

/-- JSON in its compact form, with whole numbers. -/
def compact : Serde ℕ where
  parse bytes := (Text.fromUtf8 bytes).bind fun text =>
    Json.read (fun cs => (Json.readNat cs).map literal) text.toList
  number l := some l.digits
  display := toString
  describe _ := "expected value"

theorem compact_readsEntries : ReadsEntries compact := by
  intro e
  simp only [compact, Text.fromUtf8_utf8, Option.bind_some]
  exact Json.read_toText (Json.numberReader_readNat literal) e.json

/-- A response with a repeated header, one value of which is not text. -/
def greeting : Parts where
  status := 200
  headers := [("content-type", headerValue "application/json"), ("x-tag", [255]), ("x-tag", headerValue "b")]
  statusValid := rfl
  namesValid := by decide
  valuesValid := by decide

/-- Its body in two pieces, with trailers behind them. -/
def greetingPolls : List (Polled String) :=
  [.pending, .frame (.data (Text.utf8 "\x7b\"data\":")) false, .frame (.data (Text.utf8 "1\x7d")) false, .pending,
    .frame (.trailers [("x-sum", headerValue "9")]) true, .finished]

theorem recorded_whole_or_nothing_greeting :
    ∃ body, recordWith .graphQlSuccess 1024 60 "g2:acme:cache:users:1" greeting = some body ∧
      WholeOrNothing compact .graphQlSuccess 1024 60 "g2:acme:cache:users:1" greeting body greetingPolls :=
  recorded_whole_or_nothing compact_readsEntries _ _ _ _ greeting (by decide) (by decide) (by
    simp [greetingPolls, Fused, signalsEnd])

/-- A response of an upstream that marks its own cache. -/
def marked : Parts where
  status := 200
  headers := [("x-g2-cache", headerValue "miss")]
  statusValid := rfl
  namesValid := by decide
  valuesValid := by decide

/-- The upstream's own marker does not come back: the replayed response does not have the headers of
the recorded one with the marker of the hit added to them. -/
theorem upstream_marker_replaced :
    ∃ body set hit, recordIfCacheable 1024 60 "g2:acme:cache:users:1" marked = some body ∧
      body.sets compact [Polled.frame (.data (Text.utf8 "ok")) true, (.finished : Polled String)] = [set] ∧
      decodeEntry compact set.value = some hit ∧
      hit.headers.getAll cacheStatusHeader ≠ marked.headers.getAll cacheStatusHeader ++ [headerValue "hit"] := by
  have hfused : Fused [Polled.frame (.data (Text.utf8 "ok")) true, (.finished : Polled String)] := by
    simp [Fused, signalsEnd]
  have hsets := sets_recordWith compact .any 1024 60 "g2:acme:cache:users:1" marked hfused
  rw [if_pos (by decide)] at hsets
  refine ⟨_, _, _, recordWith_eq_some (by decide) (by decide), hsets,
    decodeEntry_encodeEntry compact_readsEntries marked _, ?_⟩
  rw [HeaderMap.getAll_insert]
  decide

end G2way.Middleware.Cache
