import G2way.Lib.JsonRead
import G2way.Lib.Service
import G2way.Storage.Lists
import Mathlib.Data.String.Basic

/-!
# The analytics pipeline

Per-request records on their way to a sink: `AnalyticsHandle::record` in
`g2-middleware`, which hands a record to a bounded channel "and never blocks", and
the worker `run` of `g2-telemetry/src/analytics.rs`, which drains the channel into
batches. "A sink failure drops that batch (loudly logged): analytics must never
apply backpressure to the proxy path."

## The model

Everything that is atomic is an action: the `try_send` of a call of `record`, the
`fetch_add` that counts its failure, a handle cloned or dropped, the stop signal,
and for the worker each arm of its `select!`, each `try_recv` of the final drain,
the return of `sink.emit` with its result, `sink.shutdown` and the end of `run`,
where the receiver is dropped. A run is any list of actions; one that is not
possible where it stands does nothing. What the actions do is logged (`Obs`).

Of `RedisListSink` the appends are modelled that one call of `emit` makes.

## What is proved

`analytics_delivers_once`: the batches are the accepted records, in channel order,
each once, up to the point where the final drain finds the channel empty; a batch
has between one and `batchSize` records; the failure of an `emit` changes nothing but
its own result; `shutdown` is the last thing the sink sees, once, and the worker gets
there; and the list of an organization receives its records.
-/

namespace G2way.Telemetry

open G2way.Lib G2way.Storage

/-! ### Records -/

/-- `AnalyticsRecord`. -/
structure AnalyticsRecord where
  timestampUnixMs : ℕ
  apiId : String
  orgId : String
  method : String
  path : String
  status : ℕ
  latencyMs : ℕ
  upstreamLatencyMs : Option ℕ := none
  keyHash : Option String := none
  keyAlias : Option String := none
  clientIp : Option String := none
  userAgent : Option String := none
  requestContentLength : Option ℕ := none
  responseContentLength : Option ℕ := none
  deriving DecidableEq, Repr

/-- `analytics_records_key`. -/
def analyticsRecordsKey (orgId : String) : String := "g2:" ++ orgId ++ ":analytics:records"

namespace AnalyticsRecord

/-- A member that is omitted when absent. -/
def member {α : Type} (name : String) (f : α → Json ℕ) (o : Option α) : List (String × Json ℕ) :=
  o.toList.map fun a => (name, f a)

/-- The object a record is serialized as. -/
def toJson (r : AnalyticsRecord) : Json ℕ :=
  .object <|
    [("timestamp_unix_ms", .number r.timestampUnixMs), ("api_id", .string r.apiId), ("org_id", .string r.orgId),
      ("method", .string r.method), ("path", .string r.path), ("status", .number r.status),
      ("latency_ms", .number r.latencyMs)] ++
    member "upstream_latency_ms" .number r.upstreamLatencyMs ++ member "key_hash" .string r.keyHash ++
    member "key_alias" .string r.keyAlias ++ member "client_ip" .string r.clientIp ++
    member "user_agent" .string r.userAgent ++ member "request_content_length" .number r.requestContentLength ++
    member "response_content_length" .number r.responseContentLength

/-- `serde_json::to_string`. -/
def serialize (r : AnalyticsRecord) : String := r.toJson.toText toString

end AnalyticsRecord

/-! ### The sink of lists -/

/-- `RedisListSink`. -/
structure RedisListSink where
  maxRecords : ℕ := 100000

/-- `by_org.entry(org).or_default().push(json)`, on a map in the order of its keys. -/
def pushEntry (org json : String) : List (String × List String) → List (String × List String)
  | [] => [(org, [json])]
  | (k, values) :: rest =>
    if org = k then (k, values ++ [json]) :: rest
    else if org < k then (org, [json]) :: (k, values) :: rest
    else (k, values) :: pushEntry org json rest

/-- The texts of a batch by organization. -/
def byOrg (records : List AnalyticsRecord) : List (String × List String) :=
  records.foldl (fun m r => pushEntry r.orgId r.serialize m) []

/-- Calls made one after the other, up to the first that fails. -/
def appendAll (answer : ListCall → Except String Unit) : List ListCall → List ListCall × Except String Unit
  | [] => ([], .ok ())
  | call :: rest =>
    match answer call with
    | .error e => ([call], .error ("analytics sink failed: " ++ e))
    | .ok () => (call :: (appendAll answer rest).1, (appendAll answer rest).2)

/-- `RedisListSink::emit`: the calls it makes on the storage, and its result. -/
def RedisListSink.emit (sink : RedisListSink) (answer : ListCall → Except String Unit)
    (records : List AnalyticsRecord) : List ListCall × Except String Unit :=
  appendAll answer <| (byOrg records).map fun entry =>
    .append (analyticsRecordsKey entry.1) entry.2 (some sink.maxRecords)

/-- What a list receives in a sequence of calls. -/
def received (key : String) (calls : List ListCall) : List String :=
  calls.flatMap fun
    | .append k values _ => if k = key then values else []
    | .drain _ _ => []

/-! ### The channel and the worker -/

variable {ρ : Type}

/-- `BATCH_SIZE`. -/
def batchSize : ℕ := 512

/-- The call of `flush` the worker is in. -/
inductive Site where
  /-- In the `select!` loop. -/
  | select
  /-- In the final drain. -/
  | drain
  /-- The flush after it. -/
  | last
  deriving DecidableEq, Repr

/-- Where the worker is. -/
inductive Phase where
  /-- At the `select!`. -/
  | select
  /-- At a `try_recv` of the final drain. -/
  | drain
  /-- Inside `sink.emit`. -/
  | emitting (site : Site)
  /-- Before `sink.shutdown`. -/
  | closing
  /-- After it, with the receiver still there. -/
  | returning
  /-- Gone, and the receiver with it. -/
  | gone
  deriving DecidableEq, Repr

/-- Where a flush returns to. -/
def Site.next : Site → Phase
  | .select => .select
  | .drain => .drain
  | .last => .closing

/-- The handles, the channel and the worker. -/
structure Pipeline (ρ : Type) where
  capacity : ℕ
  /-- The records in the channel, the oldest first. -/
  queue : List ρ := []
  /-- The `AnalyticsHandle`s there are. -/
  handles : ℕ := 1
  /-- The calls of `record` whose `try_send` failed and whose `fetch_add` is still to come. -/
  uncounted : ℕ := 0
  dropped : UInt64 := 0
  /-- The stop signal was sent, or its sender dropped. -/
  stopped : Bool := false
  buf : List ρ := []
  phase : Phase := .select

/-- `AnalyticsHandle::channel`, and the worker spawned on the receiver; the channel panics on a
capacity of zero. -/
def channel (capacity : ℕ) : Option (Pipeline ρ) := if capacity = 0 then none else some { capacity }

/-- An atomic action. -/
inductive Act (ρ : Type) where
  /-- The `try_send` of a call of `record`. -/
  | trySend (r : ρ)
  /-- The `fetch_add` of a call whose `try_send` failed. -/
  | count
  | cloneHandle
  | dropHandle
  | stop
  /-- `rx.recv()` is ready. -/
  | recv
  /-- `tick.tick()` is ready. -/
  | tick
  /-- `stop.changed()` is ready. -/
  | stopChanged
  | tryRecv
  /-- `sink.emit` returns. -/
  | emitReturns (ok : Bool)
  | shutdown
  /-- `run` returns. -/
  | exit
  deriving DecidableEq, Repr

/-- What is seen of an action. -/
inductive Obs (ρ : Type) where
  | accepted (r : ρ)
  | refused (r : ρ)
  /-- The final drain finds the channel empty. -/
  | foundEmpty
  /-- `sink.emit` is called. -/
  | emit (batch : List ρ)
  /-- It returns. -/
  | returned (ok : Bool)
  /-- `sink.shutdown` is called. -/
  | shutdown
  deriving DecidableEq, Repr

namespace Pipeline

/-- `AnalyticsHandle::record`, up to the `fetch_add`. -/
def trySend (s : Pipeline ρ) (r : ρ) : List (Obs ρ) × Pipeline ρ :=
  if s.handles = 0 then ([], s)
  else if s.phase = .gone ∨ s.capacity ≤ s.queue.length then
    ([.refused r], { s with uncounted := s.uncounted + 1 })
  else ([.accepted r], { s with queue := s.queue ++ [r] })

/-- `flush`, up to the return of `sink.emit`. -/
def flush (s : Pipeline ρ) (site : Site) : List (Obs ρ) × Pipeline ρ :=
  if s.buf.isEmpty then ([], { s with phase := site.next })
  else ([.emit s.buf], { s with phase := .emitting site })

/-- A record taken from the channel: `buf.push`, and a flush when the buffer is full. -/
def push (s : Pipeline ρ) (site : Site) (r : ρ) (rest : List ρ) : List (Obs ρ) × Pipeline ρ :=
  let s := { s with queue := rest, buf := s.buf ++ [r] }
  if batchSize ≤ s.buf.length then s.flush site else ([], s)

/-- One action. -/
def step (s : Pipeline ρ) : Act ρ → List (Obs ρ) × Pipeline ρ
  | .trySend r => s.trySend r
  | .count => if s.uncounted = 0 then ([], s)
    else ([], { s with uncounted := s.uncounted - 1, dropped := s.dropped + 1 })
  | .cloneHandle => if s.handles = 0 then ([], s) else ([], { s with handles := s.handles + 1 })
  | .dropHandle => ([], { s with handles := s.handles - 1 })
  | .stop => ([], { s with stopped := true })
  | .recv =>
    if s.phase = .select then
      match s.queue with
      | r :: rest => s.push .select r rest
      -- With the last handle gone and nothing queued, `recv` yields `None`; else it is not ready.
      | [] => if s.handles = 0 then ([], { s with phase := .drain }) else ([], s)
    else ([], s)
  | .tick => if s.phase = .select then s.flush .select else ([], s)
  | .stopChanged => if s.phase = .select ∧ s.stopped then ([], { s with phase := .drain }) else ([], s)
  | .tryRecv =>
    if s.phase = .drain then
      match s.queue with
      | r :: rest => s.push .drain r rest
      | [] => (.foundEmpty :: (s.flush .last).1, (s.flush .last).2)
    else ([], s)
  | .emitReturns ok =>
    match s.phase with
    | .emitting site => ([.returned ok], { s with buf := [], phase := site.next })
    | _ => ([], s)
  | .shutdown => if s.phase = .closing then ([.shutdown], { s with phase := .returning }) else ([], s)
  | .exit => if s.phase = .returning then ([], { s with phase := .gone, queue := [] }) else ([], s)

end Pipeline

/-! ### The log of a run -/

/-- What is seen of a run. -/
def log (s : Pipeline ρ) (acts : List (Act ρ)) : List (Obs ρ) := (answered Pipeline.step s acts).flatMap Prod.snd

namespace Obs

/-- The records the channel accepted. -/
def accepted? : Obs ρ → Option ρ
  | .accepted r => some r
  | _ => none

/-- The records it refused. -/
def refused? : Obs ρ → Option ρ
  | .refused r => some r
  | _ => none

/-- The batches handed to the sink. -/
def batch? : Obs ρ → Option (List ρ)
  | .emit batch => some batch
  | _ => none

/-- The drain found the channel empty. -/
def isFoundEmpty : Obs ρ → Bool
  | .foundEmpty => true
  | _ => false

/-- The sink was shut down. -/
def isShutdown : Obs ρ → Bool
  | .shutdown => true
  | _ => false

/-- The observation without the result of the sink. -/
def forgetResult : Obs ρ → Obs ρ
  | .returned _ => .returned true
  | o => o

end Obs

section Log

variable (l m : List (Obs ρ))

/-- The accepted records, in channel order. -/
def accepted : List ρ := l.filterMap Obs.accepted?

/-- The refused records. -/
def refused : List ρ := l.filterMap Obs.refused?

/-- The batches handed to the sink. -/
def batches : List (List ρ) := l.filterMap Obs.batch?

/-- The records accepted before the final drain found the channel empty. -/
def acceptedBefore : List ρ := accepted (l.takeWhile fun o => !o.isFoundEmpty)

/-- The sink was shut down once, when the final drain was over, and got nothing after that. -/
def ShutDownOnce : Prop :=
  ∃ pre post, l = pre ++ .shutdown :: post ∧ pre.any Obs.isFoundEmpty = true ∧ pre.any Obs.isShutdown = false ∧
    post.any Obs.isShutdown = false ∧ batches post = []

@[simp]
theorem accepted_append : accepted (l ++ m) = accepted l ++ accepted m := List.filterMap_append

@[simp]
theorem refused_append : refused (l ++ m) = refused l ++ refused m := List.filterMap_append

@[simp]
theorem batches_append : batches (l ++ m) = batches l ++ batches m := List.filterMap_append

variable {l}

theorem acceptedBefore_of_none (h : l.any Obs.isFoundEmpty = false) : acceptedBefore l = accepted l := by
  rw [List.any_eq_false] at h
  rw [acceptedBefore, List.takeWhile_eq_self_iff.2]
  intro o ho
  simpa using h o ho

theorem acceptedBefore_append (h : l.any Obs.isFoundEmpty = true) : acceptedBefore (l ++ m) = acceptedBefore l := by
  obtain ⟨o, ho, hempty⟩ := List.any_eq_true.1 h
  rw [acceptedBefore, List.takeWhile_append, if_neg, acceptedBefore]
  intro hall
  have hself : (l.takeWhile fun o => !o.isFoundEmpty) = l := (List.takeWhile_prefix _).eq_of_length hall
  have hnot := List.takeWhile_eq_self_iff.1 hself o ho
  simp [hempty] at hnot

theorem acceptedBefore_foundEmpty (h : l.any Obs.isFoundEmpty = false) :
    acceptedBefore (l ++ .foundEmpty :: m) = accepted l := by
  have hall : ∀ o ∈ l, (!o.isFoundEmpty) = true := by
    intro o ho
    simpa using List.any_eq_false.1 h o ho
  rw [acceptedBefore, List.takeWhile_append_of_pos hall]
  simp [Obs.isFoundEmpty]

theorem ShutDownOnce.append (h : ShutDownOnce l) (hshutdown : m.any Obs.isShutdown = false)
    (hbatches : batches m = []) : ShutDownOnce (l ++ m) := by
  obtain ⟨pre, post, rfl, hempty, hpre, hpost, hnone⟩ := h
  refine ⟨pre, post ++ m, by simp, hempty, hpre, ?_, ?_⟩
  · rw [List.any_append, hpost, hshutdown]
    rfl
  · rw [batches_append, hnone, hbatches]
    rfl

end Log

/-! ### What ties the worker to the log -/

/-- The worker has not seen the end of the final drain. -/
def Phase.beforeEnd : Phase → Bool
  | .select | .drain | .emitting .select | .emitting .drain => true
  | .emitting .last | .closing | .returning | .gone => false

/-- The worker is inside `sink.emit`. -/
def Phase.isEmitting : Phase → Bool
  | .emitting _ => true
  | _ => false

/-- The sink is shut down. -/
def Phase.isShutDown : Phase → Bool
  | .returning | .gone => true
  | _ => false

/-- The records taken from the channel and not handed to the sink. -/
def Pipeline.held (s : Pipeline ρ) : List ρ := if s.phase.isEmitting then [] else s.buf

/-- What ties a pipeline to the log of its run. -/
structure Inv (l : List (Obs ρ)) (s : Pipeline ρ) : Prop where
  /-- Each refused record is counted, or about to be. -/
  counted : UInt64.ofNat (refused l).length = s.dropped + UInt64.ofNat s.uncounted
  sizes : ∀ b ∈ batches l, 0 < b.length ∧ b.length ≤ batchSize
  /-- Between flushes the buffer is not full. -/
  room : s.phase.isEmitting = false → s.buf.length < batchSize
  /-- Until the drain ends, what was accepted is handed over, buffered or queued, in this order. -/
  flow : s.phase.beforeEnd = true →
    l.any Obs.isFoundEmpty = false ∧ (batches l).flatten ++ s.held ++ s.queue = accepted l
  /-- From then on, what was accepted before is handed over. -/
  drained : s.phase.beforeEnd = false →
    l.any Obs.isFoundEmpty = true ∧ (batches l).flatten = acceptedBefore l
  /-- After the drain the buffer is handed over or empty. -/
  empty : s.phase.beforeEnd = false → s.held = []
  open_ : s.phase.isShutDown = false → l.any Obs.isShutdown = false
  shut : s.phase.isShutDown = true → ShutDownOnce l

section Inv

variable {l : List (Obs ρ)} {s : Pipeline ρ}

theorem Inv.init {capacity : ℕ} : Inv [] ({ capacity } : Pipeline ρ) where
  counted := rfl
  sizes b hb := by cases hb
  room _ := Nat.zero_lt_succ _
  flow _ := ⟨rfl, rfl⟩
  drained h := by cases h
  empty h := by cases h
  open_ _ := rfl
  shut h := by cases h

/-- An action of a producer: it leaves the worker where it is, and what it adds to the channel is what
it is seen to add. -/
theorem Inv.producer {s' : Pipeline ρ} {m : List (Obs ρ)} (h : Inv l s) (hphase : s'.phase = s.phase)
    (hbuf : s'.buf = s.buf) (hqueue : s.phase.beforeEnd = true → s'.queue = s.queue ++ accepted m)
    (hcount : s'.dropped + UInt64.ofNat s'.uncounted =
      s.dropped + UInt64.ofNat s.uncounted + UInt64.ofNat (refused m).length)
    (hempty : m.any Obs.isFoundEmpty = false) (hshutdown : m.any Obs.isShutdown = false)
    (hbatches : batches m = []) : Inv (l ++ m) s' := by
  have hheld : s'.held = s.held := by rw [Pipeline.held, Pipeline.held, hphase, hbuf]
  refine ⟨?_, ?_, ?_, ?_, ?_, ?_, ?_, ?_⟩
  · rw [refused_append, List.length_append, UInt64.ofNat_add, h.counted, hcount]
  · rw [batches_append, hbatches, List.append_nil]
    exact h.sizes
  · rw [hphase, hbuf]
    exact h.room
  · intro hbefore
    rw [hphase] at hbefore
    obtain ⟨hnone, hflow⟩ := h.flow hbefore
    refine ⟨by rw [List.any_append, hnone, hempty]; rfl, ?_⟩
    rw [batches_append, hbatches, List.append_nil, hheld, hqueue hbefore, accepted_append, ← hflow]
    simp only [List.append_assoc]
  · intro hafter
    rw [hphase] at hafter
    obtain ⟨hsome, hdrained⟩ := h.drained hafter
    refine ⟨by rw [List.any_append, hsome]; rfl, ?_⟩
    rw [batches_append, hbatches, List.append_nil, acceptedBefore_append _ hsome, hdrained]
  · rw [hphase, hheld]
    exact h.empty
  · intro hopen
    rw [hphase] at hopen
    rw [List.any_append, h.open_ hopen, hshutdown]
    rfl
  · intro hshut
    rw [hphase] at hshut
    exact (h.shut hshut).append _ hshutdown hbatches

theorem Inv.trySend (h : Inv l s) (r : ρ) : Inv (l ++ (s.trySend r).1) (s.trySend r).2 := by
  unfold Pipeline.trySend
  split_ifs with hhandles hfull
  · simpa using h
  · refine h.producer rfl rfl (fun _ => (List.append_nil _).symm) ?_ rfl rfl rfl
    show s.dropped + UInt64.ofNat (s.uncounted + 1) = _
    rw [UInt64.ofNat_add, ← UInt64.add_assoc]
    rfl
  · exact h.producer rfl rfl (fun _ => rfl) (UInt64.add_zero _).symm rfl rfl rfl

/-- The worker before a call of `flush`: the buffer may be full. -/
structure Ready (l : List (Obs ρ)) (s : Pipeline ρ) : Prop where
  counted : UInt64.ofNat (refused l).length = s.dropped + UInt64.ofNat s.uncounted
  sizes : ∀ b ∈ batches l, 0 < b.length ∧ b.length ≤ batchSize
  full : s.buf.length ≤ batchSize
  none_ : l.any Obs.isFoundEmpty = false
  flow : (batches l).flatten ++ s.buf ++ s.queue = accepted l
  open_ : l.any Obs.isShutdown = false

/-- The worker at the `select!` or at a `try_recv` is ready to flush. -/
theorem Inv.ready (h : Inv l s) (hphase : s.phase = .select ∨ s.phase = .drain) : Ready l s := by
  have hemitting : s.phase.isEmitting = false := by rcases hphase with hp | hp <;> rw [hp] <;> rfl
  have hbefore : s.phase.beforeEnd = true := by rcases hphase with hp | hp <;> rw [hp] <;> rfl
  have hopen : s.phase.isShutDown = false := by rcases hphase with hp | hp <;> rw [hp] <;> rfl
  obtain ⟨hnone, hflow⟩ := h.flow hbefore
  rw [Pipeline.held, hemitting] at hflow
  exact ⟨h.counted, h.sizes, (h.room hemitting).le, hnone, hflow, h.open_ hopen⟩

/-- A worker that is ready and has room goes on. -/
theorem Ready.inv (h : Ready l s) (hroom : s.buf.length < batchSize)
    (hphase : s.phase = .select ∨ s.phase = .drain) : Inv l s := by
  have hemitting : s.phase.isEmitting = false := by rcases hphase with hp | hp <;> rw [hp] <;> rfl
  have hbefore : s.phase.beforeEnd = true := by rcases hphase with hp | hp <;> rw [hp] <;> rfl
  have hopen : s.phase.isShutDown = false := by rcases hphase with hp | hp <;> rw [hp] <;> rfl
  refine ⟨h.counted, h.sizes, fun _ => hroom, fun _ => ⟨h.none_, ?_⟩, ?_, ?_, fun _ => h.open_, ?_⟩
  · rw [Pipeline.held, hemitting]
    exact h.flow
  · intro hafter
    rw [hbefore] at hafter
    cases hafter
  · intro hafter
    rw [hbefore] at hafter
    cases hafter
  · intro hshut
    rw [hopen] at hshut
    cases hshut

/-- A batch handed over is a batch of the right size. -/
theorem Ready.sizes_emit (h : Ready l s) (hbuf : s.buf ≠ []) {m : List (Obs ρ)} (hm : batches m = [s.buf]) :
    ∀ b ∈ batches (l ++ m), 0 < b.length ∧ b.length ≤ batchSize := by
  intro b hb
  rw [batches_append, hm, List.mem_append, List.mem_singleton] at hb
  rcases hb with hb | rfl
  · exact h.sizes b hb
  · exact ⟨List.length_pos_iff.2 hbuf, h.full⟩

/-- A flush on the way. -/
theorem Ready.flush (h : Ready l s) {site : Site} (hsite : site ≠ .last) :
    Inv (l ++ (s.flush site).1) (s.flush site).2 := by
  unfold Pipeline.flush
  split_ifs with hbuf
  · have hnil : s.buf = [] := List.isEmpty_iff.1 hbuf
    rw [List.append_nil]
    refine Ready.inv ⟨h.counted, h.sizes, h.full, h.none_, h.flow, h.open_⟩ ?_ ?_
    · simp [hnil, batchSize]
    · cases site with
      | select => exact .inl rfl
      | drain => exact .inr rfl
      | last => exact absurd rfl hsite
  · have hne : s.buf ≠ [] := fun hnil => hbuf (List.isEmpty_iff.2 hnil)
    refine ⟨?_, h.sizes_emit hne rfl, ?_, ?_, ?_, ?_, ?_, ?_⟩
    · have hnone : refused (l ++ [.emit s.buf]) = refused l := by
        rw [refused_append]
        exact List.append_nil _
      rw [hnone]
      exact h.counted
    · intro hnot
      cases hnot
    · intro _
      refine ⟨by rw [List.any_append, h.none_]; rfl, ?_⟩
      have hemit : batches [Obs.emit s.buf] = [s.buf] := rfl
      have hnone : accepted [Obs.emit s.buf] = [] := rfl
      rw [accepted_append, ← h.flow, batches_append, hemit, hnone, List.flatten_append, List.flatten_singleton,
        List.append_nil]
      simp [Pipeline.held, Phase.isEmitting]
    · intro hafter
      cases site with
      | last => exact absurd rfl hsite
      | _ => cases hafter
    · intro hafter
      cases site with
      | last => exact absurd rfl hsite
      | _ => cases hafter
    · intro _
      rw [List.any_append, h.open_]
      rfl
    · intro hshut
      cases hshut

/-- The flush after the drain. -/
theorem Ready.flush_last (h : Ready l s) (hqueue : s.queue = []) :
    Inv (l ++ .foundEmpty :: (s.flush .last).1) (s.flush .last).2 := by
  have hflow : (batches l).flatten ++ s.buf = accepted l := by
    rw [← h.flow, hqueue, List.append_nil]
  have hsome : ∀ m : List (Obs ρ), (l ++ Obs.foundEmpty :: m).any Obs.isFoundEmpty = true := by
    intro m
    rw [List.any_append, List.any_cons]
    exact Bool.or_true _
  unfold Pipeline.flush
  split_ifs with hbuf
  · have hnil : s.buf = [] := List.isEmpty_iff.1 hbuf
    refine ⟨?_, ?_, ?_, ?_, ?_, ?_, ?_, ?_⟩
    · have hnone : refused (l ++ [.foundEmpty]) = refused l := by
        rw [refused_append]
        exact List.append_nil _
      rw [hnone]
      exact h.counted
    · rw [batches_append]
      intro b hb
      exact h.sizes b (by simpa [batches, Obs.batch?] using hb)
    · intro _
      simp [hnil, batchSize]
    · intro hbefore
      cases hbefore
    · intro _
      refine ⟨hsome [], ?_⟩
      rw [acceptedBefore_foundEmpty _ h.none_, ← hflow, hnil]
      simp [batches, Obs.batch?]
    · intro _
      exact hnil
    · intro _
      rw [List.any_append, h.open_]
      rfl
    · intro hshut
      cases hshut
  · have hne : s.buf ≠ [] := fun hnil => hbuf (List.isEmpty_iff.2 hnil)
    refine ⟨?_, h.sizes_emit hne rfl, ?_, ?_, ?_, ?_, ?_, ?_⟩
    · have hnone : refused (l ++ [.foundEmpty, .emit s.buf]) = refused l := by
        rw [refused_append]
        exact List.append_nil _
      rw [hnone]
      exact h.counted
    · intro hnot
      cases hnot
    · intro hbefore
      cases hbefore
    · intro _
      refine ⟨hsome _, ?_⟩
      have hemit : batches [Obs.foundEmpty, Obs.emit s.buf] = [s.buf] := rfl
      rw [acceptedBefore_foundEmpty _ h.none_, ← hflow, batches_append, hemit, List.flatten_append,
        List.flatten_singleton]
    · intro _
      rfl
    · intro _
      rw [List.any_append, h.open_]
      rfl
    · intro hshut
      cases hshut

/-- A record taken from the channel. -/
theorem Inv.push (h : Inv l s) {site : Site} (hsite : site ≠ .last) (hphase : s.phase = site.next) {r : ρ}
    {rest : List ρ} (hqueue : s.queue = r :: rest) :
    Inv (l ++ (s.push site r rest).1) (s.push site r rest).2 := by
  have hat : s.phase = .select ∨ s.phase = .drain := by
    cases site with
    | select => exact .inl hphase
    | drain => exact .inr hphase
    | last => exact absurd rfl hsite
  have hemitting : s.phase.isEmitting = false := by rcases hat with hp | hp <;> rw [hp] <;> rfl
  have hready := h.ready hat
  have hroom := h.room hemitting
  have hpushed : Ready l { s with queue := rest, buf := s.buf ++ [r] } := by
    refine ⟨hready.counted, hready.sizes, ?_, hready.none_, ?_, hready.open_⟩
    · rw [List.length_append]
      exact hroom
    · rw [← hready.flow, hqueue]
      simp
  unfold Pipeline.push
  simp only
  split_ifs with hfull
  · exact hpushed.flush hsite
  · rw [List.append_nil]
    exact hpushed.inv (not_le.1 hfull) hat

/-- The worker leaves the loop. -/
theorem Inv.leave (h : Inv l s) (hphase : s.phase = .select) : Inv l { s with phase := .drain } := by
  have hready := h.ready (.inl hphase)
  refine Ready.inv ⟨hready.counted, hready.sizes, hready.full, hready.none_, hready.flow, hready.open_⟩ ?_ (.inr rfl)
  refine h.room ?_
  rw [hphase]
  rfl

/-- The sink returns. -/
theorem Inv.emitReturns (h : Inv l s) {site : Site} (hphase : s.phase = .emitting site) (ok : Bool) :
    Inv (l ++ [.returned ok]) { s with buf := [], phase := site.next } := by
  have hrefused : refused (l ++ [.returned ok]) = refused l := by
    rw [refused_append]
    exact List.append_nil _
  have hbatches : batches (l ++ [.returned ok]) = batches l := by
    rw [batches_append]
    exact List.append_nil _
  have haccepted : accepted (l ++ [.returned ok]) = accepted l := by
    rw [accepted_append]
    exact List.append_nil _
  have hopen : (l ++ [Obs.returned ok]).any Obs.isShutdown = false := by
    rw [List.any_append, h.open_ (by rw [hphase]; rfl)]
    rfl
  have hempty : ({ s with buf := [], phase := site.next } : Pipeline ρ).held = [] := by
    unfold Pipeline.held
    split_ifs <;> rfl
  refine ⟨?_, ?_, ?_, ?_, ?_, fun _ => hempty, fun _ => hopen, ?_⟩
  · rw [hrefused]
    exact h.counted
  · rw [hbatches]
    exact h.sizes
  · intro _
    exact Nat.zero_lt_succ _
  · intro hbefore
    have hsame : s.phase.beforeEnd = true := by
      rw [hphase]
      cases site with
      | last => cases hbefore
      | _ => rfl
    obtain ⟨hnone, hflow⟩ := h.flow hsame
    have hheld : s.held = [] := by
      rw [Pipeline.held, hphase]
      rfl
    refine ⟨by rw [List.any_append, hnone]; rfl, ?_⟩
    rw [hbatches, haccepted, ← hflow, hheld, hempty]
  · intro hafter
    have hsame : s.phase.beforeEnd = false := by
      rw [hphase]
      cases site with
      | last => rfl
      | _ => cases hafter
    obtain ⟨hsome, hdrained⟩ := h.drained hsame
    refine ⟨by rw [List.any_append, hsome]; rfl, ?_⟩
    rw [hbatches, acceptedBefore_append _ hsome, hdrained]
  · intro hshut
    cases site <;> cases hshut

theorem Inv.shutdown (h : Inv l s) (hphase : s.phase = .closing) :
    Inv (l ++ [.shutdown]) { s with phase := .returning } := by
  have hafter : s.phase.beforeEnd = false := by rw [hphase]; rfl
  obtain ⟨hsome, hdrained⟩ := h.drained hafter
  have hbatches : batches (l ++ [.shutdown]) = batches l := by
    rw [batches_append]
    exact List.append_nil _
  have hrefused : refused (l ++ [.shutdown]) = refused l := by
    rw [refused_append]
    exact List.append_nil _
  have hempty : s.buf = [] := by
    have hheld := h.empty hafter
    rwa [Pipeline.held, hphase] at hheld
  refine ⟨?_, ?_, ?_, ?_, ?_, ?_, ?_, ?_⟩
  · rw [hrefused]
    exact h.counted
  · rw [hbatches]
    exact h.sizes
  · intro _
    simp [hempty, batchSize]
  · intro hbefore
    cases hbefore
  · intro _
    refine ⟨by rw [List.any_append, hsome]; rfl, ?_⟩
    rw [hbatches, acceptedBefore_append _ hsome, hdrained]
  · intro _
    exact hempty
  · intro hopen
    cases hopen
  · intro _
    exact ⟨l, [], rfl, hsome, h.open_ (by rw [hphase]; rfl), rfl, rfl⟩

theorem Inv.exit (h : Inv l s) (hphase : s.phase = .returning) : Inv l { s with phase := .gone, queue := [] } := by
  have hshut : s.phase.isShutDown = true := by rw [hphase]; rfl
  have hafter : s.phase.beforeEnd = false := by rw [hphase]; rfl
  have hemitting : s.phase.isEmitting = false := by rw [hphase]; rfl
  refine ⟨h.counted, h.sizes, fun _ => h.room hemitting, ?_, fun _ => h.drained hafter, fun _ => ?_, ?_,
    fun _ => h.shut hshut⟩
  · intro hbefore
    cases hbefore
  · have hheld := h.empty hafter
    rwa [Pipeline.held, hemitting] at hheld
  · intro hopen
    cases hopen

/-- **One action** keeps the worker tied to the log. -/
theorem Inv.step (h : Inv l s) (a : Act ρ) : Inv (l ++ (s.step a).1) (s.step a).2 := by
  have hidle : Inv (l ++ []) s := by rwa [List.append_nil]
  cases a with
  | trySend r => exact h.trySend r
  | count =>
    simp only [Pipeline.step]
    split_ifs with hnone
    · exact hidle
    · refine h.producer rfl rfl (fun _ => (List.append_nil _).symm) ?_ rfl rfl rfl
      obtain ⟨n, hn⟩ := Nat.exists_eq_succ_of_ne_zero hnone
      show s.dropped + 1 + UInt64.ofNat (s.uncounted - 1) = s.dropped + UInt64.ofNat s.uncounted + 0
      rw [hn, Nat.succ_eq_add_one, Nat.add_sub_cancel, UInt64.ofNat_add, UInt64.add_zero, UInt64.add_assoc]
      exact congrArg _ (UInt64.add_comm ..)
  | cloneHandle =>
    simp only [Pipeline.step]
    split_ifs
    · exact hidle
    · exact h.producer rfl rfl (fun _ => (List.append_nil _).symm) (UInt64.add_zero _).symm rfl rfl rfl
  | dropHandle =>
    exact h.producer rfl rfl (fun _ => (List.append_nil _).symm) (UInt64.add_zero _).symm rfl rfl rfl
  | stop => exact h.producer rfl rfl (fun _ => (List.append_nil _).symm) (UInt64.add_zero _).symm rfl rfl rfl
  | recv =>
    simp only [Pipeline.step]
    by_cases hphase : s.phase = .select
    · rw [if_pos hphase]
      split
      · rename_i r rest hqueue
        exact h.push (by decide : Site.select ≠ .last) hphase hqueue
      · split_ifs
        · rw [List.append_nil]
          exact h.leave hphase
        · exact hidle
    · rw [if_neg hphase]
      exact hidle
  | tick =>
    simp only [Pipeline.step]
    split_ifs with hphase
    · exact (h.ready (.inl hphase)).flush (by decide)
    · exact hidle
  | stopChanged =>
    simp only [Pipeline.step]
    split_ifs with hphase
    · rw [List.append_nil]
      exact h.leave hphase.1
    · exact hidle
  | tryRecv =>
    simp only [Pipeline.step]
    split_ifs with hphase
    · split
      · rename_i r rest hqueue
        exact h.push (by decide : Site.drain ≠ .last) hphase hqueue
      · rename_i hqueue
        exact (h.ready (.inr hphase)).flush_last hqueue
    · exact hidle
  | emitReturns ok =>
    simp only [Pipeline.step]
    split
    · rename_i site hphase
      exact h.emitReturns hphase ok
    · exact hidle
  | shutdown =>
    simp only [Pipeline.step]
    split_ifs with hphase
    · exact h.shutdown hphase
    · exact hidle
  | exit =>
    simp only [Pipeline.step]
    split_ifs with hphase
    · rw [List.append_nil]
      exact h.exit hphase
    · exact hidle

end Inv

/-! ### Runs -/

section Run

variable {s : Pipeline ρ}

/-- **Any run** keeps the worker tied to the log. -/
theorem inv_run (h : Inv [] s) (acts : List (Act ρ)) : Inv (log s acts) (after Pipeline.step s acts) := by
  refine inv_after (P := fun _ => True) (I := fun l s => Inv (l.flatMap Prod.snd) s) h (fun _ _ h => h) ?_ trivial
  intro as a _ hinv
  rw [List.flatMap_append]
  simpa using hinv.step a

/-! The result of the sink. -/

/-- The action without the result of the sink. -/
def Act.forgetResult : Act ρ → Act ρ
  | .emitReturns _ => .emitReturns true
  | a => a

/-- A result changes nothing but itself. -/
theorem step_forgetResult (s : Pipeline ρ) (a : Act ρ) :
    (s.step a.forgetResult).2 = (s.step a).2 ∧
      (s.step a.forgetResult).1.map Obs.forgetResult = (s.step a).1.map Obs.forgetResult := by
  cases a with
  | emitReturns ok =>
    simp only [Act.forgetResult, Pipeline.step]
    split
    · exact ⟨rfl, rfl⟩
    · exact ⟨rfl, rfl⟩
  | _ => exact ⟨rfl, rfl⟩

theorem run_forgetResult (s : Pipeline ρ) (acts : List (Act ρ)) :
    (log s (acts.map Act.forgetResult)).map Obs.forgetResult = (log s acts).map Obs.forgetResult := by
  induction acts generalizing s with
  | nil => rfl
  | cons a acts ih =>
    obtain ⟨hstate, hlog⟩ := step_forgetResult s a
    have hrest := ih (s.step a).2
    simp only [log, List.map_cons, answered, List.flatMap_cons, List.map_append] at hrest ⊢
    rw [hlog, hstate, hrest]

/-! The way out. -/

/-- The actions of the worker. -/
def Act.isWorker : Act ρ → Bool
  | .recv | .tick | .stopChanged | .tryRecv | .emitReturns _ | .shutdown | .exit => true
  | _ => false

/-- The worker, left alone, can come to its end. -/
def Finishes (s : Pipeline ρ) : Prop :=
  ∃ acts : List (Act ρ), (∀ a ∈ acts, a.isWorker = true) ∧ (after Pipeline.step s acts).phase = .gone

theorem Finishes.of_step {a : Act ρ} (ha : a.isWorker = true) (h : Finishes (s.step a).2) : Finishes s := by
  obtain ⟨acts, hworker, hgone⟩ := h
  refine ⟨a :: acts, ?_, hgone⟩
  intro b hb
  rcases List.mem_cons.1 hb with rfl | hb
  · exact ha
  · exact hworker b hb

theorem finishes_of_gone (h : s.phase = .gone) : Finishes s := ⟨[], by simp, h⟩

theorem finishes_of_returning (h : s.phase = .returning) : Finishes s := by
  apply Finishes.of_step (a := .exit) rfl
  apply finishes_of_gone
  simp only [Pipeline.step, if_pos h]

theorem finishes_of_closing (h : s.phase = .closing) : Finishes s := by
  apply Finishes.of_step (a := .shutdown) rfl
  apply finishes_of_returning
  simp only [Pipeline.step, if_pos h]

theorem finishes_of_emitting {site : Site} (h : s.phase = .emitting site)
    (hnext : Finishes { s with buf := [], phase := site.next }) : Finishes s := by
  apply Finishes.of_step (a := .emitReturns true) rfl
  simpa only [Pipeline.step, h] using hnext

/-- A flush comes back. -/
theorem finishes_of_flush {site : Site} (h : ∀ buf, Finishes { s with buf := buf, phase := site.next }) :
    Finishes (s.flush site).2 := by
  unfold Pipeline.flush
  split_ifs
  · exact h s.buf
  · exact finishes_of_emitting rfl (h [])

theorem finishes_of_drain (h : s.phase = .drain) : Finishes s := by
  generalize hqueue : s.queue = queue
  induction queue generalizing s with
  | nil =>
    apply Finishes.of_step (a := .tryRecv) rfl
    simp only [Pipeline.step, if_pos h, hqueue]
    exact finishes_of_flush fun buf => finishes_of_closing rfl
  | cons r rest ih =>
    apply Finishes.of_step (a := .tryRecv) rfl
    simp only [Pipeline.step, if_pos h, hqueue, Pipeline.push]
    split_ifs
    · exact finishes_of_flush fun buf => ih rfl rfl
    · exact ih h rfl

theorem finishes_of_select (h : s.phase = .select) (hstop : s.stopped = true) : Finishes s := by
  apply Finishes.of_step (a := .stopChanged) rfl
  apply finishes_of_drain
  simp only [Pipeline.step, h, hstop, and_self, if_true]

/-- **The worker comes to its end** once the stop signal is there, wherever it is. -/
theorem finishes_of_stopped (hstop : s.stopped = true) : Finishes s := by
  cases hphase : s.phase with
  | select => exact finishes_of_select hphase hstop
  | drain => exact finishes_of_drain hphase
  | emitting site =>
    apply finishes_of_emitting hphase
    cases site with
    | select => exact finishes_of_select rfl hstop
    | drain => exact finishes_of_drain rfl
    | last => exact finishes_of_closing rfl
  | closing => exact finishes_of_closing hphase
  | returning => exact finishes_of_returning hphase
  | gone => exact finishes_of_gone hphase

end Run

/-! ### What the lists receive -/

section Lists

theorem analyticsRecordsKey_injective : Function.Injective analyticsRecordsKey := by
  intro a b h
  simp only [analyticsRecordsKey, String.append_assoc] at h
  exact (String.append_left_inj _).1 ((String.append_right_inj _).1 h)

/-- The texts kept for an organization. -/
def textsOf (org : String) (m : List (String × List String)) : List String :=
  m.flatMap fun entry => if entry.1 = org then entry.2 else []

theorem textsOf_cons (org : String) (entry : String × List String) (m : List (String × List String)) :
    textsOf org (entry :: m) = (if entry.1 = org then entry.2 else []) ++ textsOf org m := List.flatMap_cons

theorem textsOf_eq_nil {org : String} {m : List (String × List String)} (h : ∀ entry ∈ m, entry.1 ≠ org) :
    textsOf org m = [] := by
  rw [textsOf, List.flatMap_eq_nil_iff]
  intro entry hentry
  rw [if_neg (h entry hentry)]

variable {m : List (String × List String)} {org json : String}

theorem key_of_mem_pushEntry {entry : String × List String} (h : entry ∈ pushEntry org json m) :
    entry.1 = org ∨ ∃ e ∈ m, entry.1 = e.1 := by
  induction m with
  | nil =>
    obtain rfl := List.mem_singleton.1 h
    exact .inl rfl
  | cons e m ih =>
    simp only [pushEntry] at h
    split_ifs at h with heq hlt
    · rcases List.mem_cons.1 h with rfl | hm
      · exact .inl heq.symm
      · exact .inr ⟨entry, List.mem_cons_of_mem _ hm, rfl⟩
    · rcases List.mem_cons.1 h with rfl | hm
      · exact .inl rfl
      · exact .inr ⟨entry, hm, rfl⟩
    · rcases List.mem_cons.1 h with rfl | hm
      · exact .inr ⟨_, List.mem_cons_self .., rfl⟩
      · rcases ih hm with hkey | ⟨e', he', hkey⟩
        · exact .inl hkey
        · exact .inr ⟨e', List.mem_cons_of_mem _ he', hkey⟩

/-- The keys of the map stay in order. -/
theorem sorted_pushEntry (h : m.Pairwise fun a b => a.1 < b.1) :
    (pushEntry org json m).Pairwise fun a b => a.1 < b.1 := by
  induction m with
  | nil => simp [pushEntry]
  | cons e m ih =>
    obtain ⟨he, hm⟩ := List.pairwise_cons.1 h
    simp only [pushEntry]
    split_ifs with heq hlt
    · exact List.pairwise_cons.2 ⟨he, hm⟩
    · refine List.pairwise_cons.2 ⟨fun entry hentry => ?_, h⟩
      rcases List.mem_cons.1 hentry with rfl | hentry
      · exact hlt
      · exact hlt.trans (he entry hentry)
    · refine List.pairwise_cons.2 ⟨fun entry hentry => ?_, ih hm⟩
      rcases key_of_mem_pushEntry hentry with hkey | ⟨e', he', hkey⟩
      · rw [hkey]
        exact lt_of_le_of_ne (not_lt.1 hlt) (Ne.symm heq)
      · rw [hkey]
        exact he e' he'

/-- A text is added to those of its own organization, behind them. -/
theorem textsOf_pushEntry (h : m.Pairwise fun a b => a.1 < b.1) (org' : String) :
    textsOf org' (pushEntry org json m) = textsOf org' m ++ if org = org' then [json] else [] := by
  induction m with
  | nil => simp [pushEntry, textsOf]
  | cons e m ih =>
    obtain ⟨he, hm⟩ := List.pairwise_cons.1 h
    have hlater : ∀ {o : String}, o ≤ e.1 → textsOf o m = [] := by
      intro o hle
      exact textsOf_eq_nil fun entry hentry => (hle.trans_lt (he entry hentry)).ne'
    simp only [pushEntry]
    by_cases heq : org = e.1
    · rw [if_pos heq, textsOf_cons, textsOf_cons]
      by_cases horg : org = org'
      · subst horg
        rw [hlater heq.le]
        simp [heq]
      · simp [horg, ← heq]
    · rw [if_neg heq]
      by_cases hlt : org < e.1
      · rw [if_pos hlt, textsOf_cons]
        by_cases horg : org = org'
        · subst horg
          rw [textsOf_cons, hlater hlt.le]
          simp [Ne.symm heq]
        · simp [horg]
      · rw [if_neg hlt, textsOf_cons, textsOf_cons, ih hm, List.append_assoc]

/-- The texts of an organization in a batch, in the order of the batch. -/
theorem textsOf_byOrg (records : List AnalyticsRecord) (org : String) :
    textsOf org (byOrg records) = (records.filter fun r => r.orgId = org).map AnalyticsRecord.serialize := by
  have hfold : ∀ m : List (String × List String), m.Pairwise (fun a b => a.1 < b.1) →
      textsOf org (records.foldl (fun m r => pushEntry r.orgId r.serialize m) m) =
        textsOf org m ++ (records.filter fun r => r.orgId = org).map AnalyticsRecord.serialize := by
    induction records with
    | nil => simp
    | cons r records ih =>
      intro m hm
      rw [List.foldl_cons, ih _ (sorted_pushEntry hm), textsOf_pushEntry hm, List.append_assoc]
      by_cases horg : r.orgId = org
      · simp [horg]
      · simp [horg]
  exact hfold [] List.Pairwise.nil

theorem appendAll_ok (calls : List ListCall) : appendAll (fun _ => .ok ()) calls = (calls, .ok ()) := by
  induction calls with
  | nil => rfl
  | cons call calls ih => simp [appendAll, ih]

/-- Where the appends succeed, the list of an organization receives its records of the batch. -/
theorem received_emit (sink : RedisListSink) (batch : List AnalyticsRecord) (org : String) :
    received (analyticsRecordsKey org) (sink.emit (fun _ => .ok ()) batch).1 =
      (batch.filter fun r => r.orgId = org).map AnalyticsRecord.serialize := by
  rw [RedisListSink.emit, appendAll_ok, ← textsOf_byOrg, received, textsOf, List.flatMap_map]
  refine List.flatMap_congr fun entry _ => ?_
  simp only [analyticsRecordsKey_injective.eq_iff]

theorem received_batches (sink : RedisListSink) (bs : List (List AnalyticsRecord)) (org : String) :
    received (analyticsRecordsKey org) (bs.flatMap fun b => (sink.emit (fun _ => .ok ()) b).1) =
      (bs.flatten.filter fun r => r.orgId = org).map AnalyticsRecord.serialize := by
  induction bs with
  | nil => rfl
  | cons b bs ih =>
    rw [List.flatMap_cons, received, List.flatMap_append, List.flatten_cons, List.filter_append, List.map_append,
      ← ih, ← received_emit sink b org]
    rfl

end Lists

/-! ### Delivery -/

/-- What a pipeline makes of the records, at any point of a run. -/
structure DeliversOnce (l : List (Obs AnalyticsRecord)) (s : Pipeline AnalyticsRecord) : Prop where
  /-- Each refused record is counted once, by the call that it was refused to. -/
  dropped : UInt64.ofNat (refused l).length = s.dropped + UInt64.ofNat s.uncounted
  /-- What the sink was handed is what was accepted first, in channel order. -/
  inOrder : (batches l).flatten <+: acceptedBefore l
  /-- When the final drain has found the channel empty, it is all that was accepted before. -/
  complete : l.any Obs.isFoundEmpty = true → (batches l).flatten = acceptedBefore l
  sizes : ∀ b ∈ batches l, 0 < b.length ∧ b.length ≤ batchSize
  shutdown : l.any Obs.isShutdown = true → ShutDownOnce l
  /-- The list of an organization receives the organization's records, in the same order. -/
  lists : ∀ (sink : RedisListSink) (org : String),
    received (analyticsRecordsKey org) ((batches l).flatMap fun b => (sink.emit (fun _ => .ok ()) b).1) =
      ((batches l).flatten.filter fun r => r.orgId = org).map AnalyticsRecord.serialize

theorem Inv.deliversOnce {l : List (Obs AnalyticsRecord)} {s : Pipeline AnalyticsRecord} (h : Inv l s) :
    DeliversOnce l s := by
  refine ⟨h.counted, ?_, ?_, h.sizes, ?_, fun sink org => received_batches sink _ org⟩
  · cases hphase : s.phase.beforeEnd with
    | true =>
      obtain ⟨hnone, hflow⟩ := h.flow hphase
      rw [acceptedBefore_of_none hnone, ← hflow, List.append_assoc]
      exact List.prefix_append _ _
    | false =>
      have hdrained := (h.drained hphase).2
      exact hdrained ▸ List.prefix_rfl
  · intro hempty
    cases hphase : s.phase.beforeEnd with
    | true =>
      rw [(h.flow hphase).1] at hempty
      cases hempty
    | false => exact (h.drained hphase).2
  · intro hshutdown
    cases hphase : s.phase.isShutDown with
    | true => exact h.shut hphase
    | false =>
      rw [h.open_ hphase] at hshutdown
      cases hshutdown

/-- **The pipeline delivers each accepted record once.** In every run of producers, worker and sink:
the delivery at its end is sound; another outcome of the sink's calls changes nothing that is seen but
these outcomes; and from there, once told to stop, the worker gets to shut the sink down. -/
theorem analytics_delivers_once {capacity : ℕ} {s : Pipeline AnalyticsRecord}
    (hchannel : channel capacity = some s) (acts : List (Act AnalyticsRecord)) :
    DeliversOnce (log s acts) (after Pipeline.step s acts) ∧
      (∀ acts', acts'.map Act.forgetResult = acts.map Act.forgetResult →
        (log s acts').map Obs.forgetResult = (log s acts).map Obs.forgetResult) ∧
      ∃ more, (∀ a ∈ more, a.isWorker = true) ∧ ShutDownOnce (log s (acts ++ .stop :: more)) := by
  have hinit : Inv [] s := by
    unfold channel at hchannel
    split_ifs at hchannel
    obtain rfl := Option.some.inj hchannel
    exact Inv.init
  refine ⟨(inv_run hinit acts).deliversOnce, fun acts' hsame => ?_, ?_⟩
  · rw [← run_forgetResult s acts', hsame, run_forgetResult]
  · obtain ⟨more, hworker, hgone⟩ := finishes_of_stopped (s := (Pipeline.step (after Pipeline.step s acts) .stop).2) rfl
    refine ⟨more, hworker, (inv_run hinit _).shut ?_⟩
    rw [after_append]
    show (after Pipeline.step _ more).phase.isShutDown = true
    rw [hgone]
    rfl

/-- A record of an organization. -/
def recordOf (org path : String) : AnalyticsRecord :=
  { timestampUnixMs := 1, apiId := "a", orgId := org, method := "GET", path := path, status := 200, latencyMs := 3 }

/-- Two records sent to a channel for one, and the worker stopped. -/
def twoRecords : List (Act AnalyticsRecord) :=
  [.trySend (recordOf "acme" "/1"), .trySend (recordOf "acme" "/2"), .count, .recv, .stop, .stopChanged, .tryRecv]

/-- The first is delivered, the second refused. -/
theorem analytics_delivers_once_twoRecords :
    ∃ s, channel 1 = some s ∧ batches (log s twoRecords) = [[recordOf "acme" "/1"]] ∧
      DeliversOnce (log s twoRecords) (after Pipeline.step s twoRecords) := by
  have hchannel : channel 1 = some ({ capacity := 1 } : Pipeline AnalyticsRecord) := rfl
  exact ⟨_, hchannel, by decide +kernel, (analytics_delivers_once hchannel twoRecords).1⟩

end G2way.Telemetry
