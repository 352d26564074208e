import G2way.Admin.Resources
import G2way.Core.Loader
import G2way.Lib.Run
import G2way.Proxy.Routing

/-!
# Hot reload

`POST /g2/reload` broadcasts a nudge over the storage's pub/sub; every pod's listener
(`g2way/src/reload.rs`) then "re-reads both definition sources (files + storage),
rebuilds the route table, and swaps it into the running `Gateway` atomically. A failed
rebuild — config error, cross-source conflict, storage outage — is logged and the **old
table keeps serving**".

## The model

A pod has its table, its subscription and its listener. What is published reaches the
inbox of every subscription; the forwarding task of `subscribe` takes a message out of
it and sends it on a channel of 32, which the listener receives from. The memory backend
keeps the newest 32 messages of an inbox and drops the rest, after which the forwarding
task is told once that it lagged; a connection of the Redis backend can break, and what
it had not delivered is lost.

A rebuild is not atomic. Between its storage calls the admin API of any pod may write.
`buildTable` is the rebuild against a store that stands still.

The directory of files is read at one step, and the step says what reading it returned.

## What is proved

* `merged_route_unique`: of a merged set of definitions no two compete for a path.
* `served_table_built`: in every run every pod serves the table it started with, or one
  built whole from valid, conflict-free definitions, each of the stored ones read from
  its own key as it stood at some point of the run.
* `nudge_converges`: once a nudge is published to a subscribed pod and nothing is written
  after that, the pod comes to rest with the table of the store as it is, or has logged
  why it could not be built; nothing that happens to the pipeline on the way, and no nudge
  that is dropped from it, matters.
* `nudge_takes_effect`: whatever a pod is doing when it is nudged, it can come to rest by itself, with what a rebuild at
  one stroke makes of the definitions.
-/

namespace G2way.Proxy.Reload

open G2way.Admin (RecordCrates Store DefinitionLoadError loadRecord loadApiDefinitions readAll)
open G2way.Core G2way.Core.Loader G2way.Lib G2way.Lib.Result G2way.Proxy.Routing

variable {B : Type}

/-! ### Rebuilding -/

/-- Why a rebuild fails. -/
inductive ReloadError where
  | config (e : Loader.Error)
  | record (e : DefinitionLoadError)
  /-- `DefinitionLoadError::Storage`. -/
  | storage
  deriving DecidableEq, Repr

/-- The storage's pub/sub. -/
inductive Backend where
  | memory
  | redis
  deriving DecidableEq, Repr

/-- An inbox after one more message. The memory backend's holds 32, the newest ones. -/
def Backend.push : Backend → List String → String → List String
  | .memory, inbox, message => if inbox.length < 32 then inbox ++ [message] else inbox.drop 1 ++ [message]
  | .redis, inbox, message => inbox ++ [message]

/-- The message pushes another one out. -/
def Backend.drops : Backend → List String → Bool
  | .memory, inbox => 32 ≤ inbox.length
  | .redis, _ => false

/-- What a rebuild needs, "captured once at startup", and what the crates and the other layers of a chain do. -/
structure ReloadContext (B : Type) where
  records : RecordCrates B
  yaml : String → Except String (ApiDefinition B)
  blocks : TargetBlocks B
  layers : ApiDefinition B → Except InvalidApiDefinition Unit
  appsDir : String
  orgId : String := "default"
  backend : Backend

/-- What reading the directory returned. -/
abbrev DirEntries := Except String (List (Except String SourceFile))

/-- `reload_channel`. -/
def reloadChannel (orgId : String) : String := "g2:" ++ orgId ++ ":channel:reload"

namespace ReloadContext

variable (ctx : ReloadContext B)

/-- The file source. -/
def loadFiles (entries : DirEntries) : Except ReloadError (List (ApiDefinition B)) :=
  (loadDir ctx.records.crates ctx.yaml ctx.appsDir entries).mapError .config

/-- The end of a rebuild, which no other task sees a part of: the stored definitions are sorted, the sources merged,
and the table is built. -/
def assemble (fileDefs found : List (ApiDefinition B)) : Except ReloadError (RouteTable B) := do
  let defs ← (mergeSources fileDefs (found.mergeSort byApiId)).mapError .config
  (RouteTable.build ctx.records.crates ctx.blocks ctx.layers defs).mapError fun e => .config (.invalidApiDefinition e)

/-- `build_table`, against a store that stands still. -/
def buildTable (entries : DirEntries) (store : Store) : Except ReloadError (RouteTable B) := do
  let fileDefs ← ctx.loadFiles entries
  let storageDefs ← (loadApiDefinitions ctx.records store ctx.orgId).mapError .record
  let defs ← (mergeSources fileDefs storageDefs).mapError .config
  (RouteTable.build ctx.records.crates ctx.blocks ctx.layers defs).mapError fun e => .config (.invalidApiDefinition e)

end ReloadContext

/-! ### Pods -/

/-- Where `listen` stands. -/
inductive Listener (B : Type) where
  /-- In `rx.recv()`. -/
  | waiting
  /-- A nudge was received. -/
  | building
  /-- The files are loaded. -/
  | scanning (fileDefs : List (ApiDefinition B))
  /-- The keys to be read, and the definitions read so far. -/
  | reading (fileDefs : List (ApiDefinition B)) (keys : List String) (found : List (ApiDefinition B))

/-- A pod of the gateway. -/
structure Pod (B : Type) where
  /-- The table of its `Gateway`. -/
  table : RouteTable B
  subscribed : Bool := false
  /-- What was published and the forwarding task has not received. -/
  inbox : List String := []
  /-- The next receive of the forwarding task says that it lagged. -/
  lagged : Bool := false
  /-- The message the forwarding task waits to send. -/
  forwarding : Option String := none
  /-- The channel to the listener. -/
  received : List String := []
  listener : Listener B := .waiting
  /-- What the listener logged of its last rebuild. -/
  logged : Option (Except ReloadError Unit) := none

namespace Pod

variable (pod : Pod B)

/-- A failed rebuild "is logged and the old table keeps serving". -/
def fail (e : ReloadError) : Pod B := { pod with listener := .waiting, logged := some (.error e) }

/-- `gateway.reload(table)`. -/
def swap (table : RouteTable B) : Pod B := { pod with table, listener := .waiting, logged := some (.ok ()) }

/-- A message arrives. -/
def deliver (backend : Backend) (message : String) : Pod B :=
  if pod.subscribed then
    { pod with inbox := backend.push pod.inbox message, lagged := pod.lagged || backend.drops pod.inbox }
  else pod

/-- Nothing is on its way to the listener, and it waits. -/
def Idle : Prop := pod.inbox = [] ∧ pod.forwarding = none ∧ pod.received = [] ∧ pod.listener = .waiting

end Pod

/-- The storage and the pods on it. -/
structure System (B : Type) where
  store : Store
  pods : ℕ → Pod B

/-- What can happen next. -/
inductive Act where
  /-- A record is written. -/
  | set (key record : String)
  | delete (key : String)
  | publish (channel payload : String)
  /-- A subscription is established, for the first time or again. -/
  | subscribe (p : ℕ)
  /-- Its connection breaks. -/
  | disconnect (p : ℕ)
  /-- The forwarding task receives a message, or is told that it lagged. -/
  | take (p : ℕ)
  /-- The forwarding task sends its message. -/
  | send (p : ℕ)
  /-- The listener receives a nudge. -/
  | receive (p : ℕ)
  | loadFiles (p : ℕ) (entries : DirEntries)
  /-- `scan_prefix` answers, or fails. -/
  | scan (p : ℕ) (answers : Bool)
  /-- The `get` of the next key answers, or fails. -/
  | read (p : ℕ) (answers : Bool)
  /-- The end of the rebuild. -/
  | finish (p : ℕ)

/-- Whose act it is. -/
def Act.pod : Act → Option ℕ
  | .set _ _ | .delete _ | .publish _ _ => none
  | .subscribe p | .disconnect p | .take p | .send p | .receive p | .loadFiles p _ | .scan p _ | .read p _
  | .finish p => some p

namespace Pod

variable (ctx : ReloadContext B) (store : Store)

/-- What an act of the pod does to it, if it is possible. -/
def perform (pod : Pod B) : Act → Option (Pod B)
  | .subscribe _ =>
    if pod.subscribed then none else some { pod with subscribed := true, inbox := [], lagged := false }
  | .disconnect _ =>
    if pod.subscribed ∧ ctx.backend = .redis then some { pod with subscribed := false, inbox := [] } else none
  | .take _ =>
    if pod.forwarding.isSome then none
    else if pod.lagged then some { pod with lagged := false }
    else match pod.inbox with
      | [] => none
      | message :: inbox => some { pod with inbox, forwarding := some message }
  | .send _ =>
    match pod.forwarding with
    | some message =>
      if pod.received.length < 32 then some { pod with forwarding := none, received := pod.received ++ [message] }
      else none
    | none => none
  | .receive _ =>
    match pod.listener, pod.received with
    | .waiting, _ :: received => some { pod with received, listener := .building }
    | _, _ => none
  | .loadFiles _ entries =>
    match pod.listener with
    | .building => match ctx.loadFiles entries with
      | .ok fileDefs => some { pod with listener := .scanning fileDefs }
      | .error e => some (pod.fail e)
    | _ => none
  | .scan _ answers =>
    match pod.listener with
    | .scanning fileDefs =>
      if answers then
        some { pod with listener := .reading fileDefs (store.scanPrefix (apiDefinitionKeyPrefix ctx.orgId)) [] }
      else some (pod.fail .storage)
    | _ => none
  | .read _ answers =>
    match pod.listener with
    | .reading fileDefs (key :: keys) found =>
      if answers then
        match store.get key with
        -- deleted between the scan and the read
        | none => some { pod with listener := .reading fileDefs keys found }
        | some record => match loadRecord ctx.records key record with
          | .ok d => some { pod with listener := .reading fileDefs keys (found ++ [d]) }
          | .error e => some (pod.fail (.record e))
      else some (pod.fail .storage)
    | _ => none
  | .finish _ =>
    match pod.listener with
    | .reading fileDefs [] found => match ctx.assemble fileDefs found with
      | .ok table => some (pod.swap table)
      | .error e => some (pod.fail e)
    | _ => none
  | .set _ _ | .delete _ | .publish _ _ => none

end Pod

/-- The next state, if the act is possible. -/
def step (ctx : ReloadContext B) (s : System B) (a : Act) : Option (System B) :=
  match a with
  | .set key record => some { s with store := s.store.set key record }
  | .delete key => some { s with store := s.store.delete key }
  | .publish channel payload =>
    if channel = reloadChannel ctx.orgId then
      some { s with pods := fun p => (s.pods p).deliver ctx.backend payload }
    else some s
  | .subscribe p | .disconnect p | .take p | .send p | .receive p | .loadFiles p _ | .scan p _ | .read p _
  | .finish p =>
    ((s.pods p).perform ctx s.store a).map fun pod => { s with pods := Function.update s.pods p pod }

/-! ### What a step does -/

section Steps

variable {ctx : ReloadContext B} {s t : System B} {a : Act}

/-- A step leaves a pod as it is, delivers a message to it, or is an act of the pod. -/
theorem step_pod (h : step ctx s a = some t) (q : ℕ) :
    t.pods q = s.pods q ∨ (∃ payload, t.pods q = (s.pods q).deliver ctx.backend payload) ∨
      a.pod = some q ∧ (s.pods q).perform ctx s.store a = some (t.pods q) ∧ t.store = s.store := by
  have hown {p : ℕ} (ha : a.pod = some p)
      (hp : ((s.pods p).perform ctx s.store a).map (fun pod => { s with pods := Function.update s.pods p pod }) =
        some t) : t.pods q = s.pods q ∨ (∃ payload, t.pods q = (s.pods q).deliver ctx.backend payload) ∨
          a.pod = some q ∧ (s.pods q).perform ctx s.store a = some (t.pods q) ∧ t.store = s.store := by
    obtain ⟨pod, hpod, rfl⟩ := Option.map_eq_some_iff.1 hp
    by_cases hq : q = p
    · subst hq
      exact .inr (.inr ⟨ha, by simpa using hpod, rfl⟩)
    · exact .inl (by simp [Function.update_of_ne hq])
  cases a with
  | set key record =>
    obtain rfl := Option.some.inj h
    exact .inl rfl
  | delete key =>
    obtain rfl := Option.some.inj h
    exact .inl rfl
  | publish channel payload =>
    simp only [step] at h
    split_ifs at h
    · obtain rfl := Option.some.inj h
      exact .inr (.inl ⟨payload, rfl⟩)
    · obtain rfl := Option.some.inj h
      exact .inl rfl
  | subscribe p => exact hown rfl h
  | disconnect p => exact hown rfl h
  | take p => exact hown rfl h
  | send p => exact hown rfl h
  | receive p => exact hown rfl h
  | loadFiles p entries => exact hown rfl h
  | scan p answers => exact hown rfl h
  | read p answers => exact hown rfl h
  | finish p => exact hown rfl h

/-- What a delivery leaves alone. -/
theorem deliver_frame (pod : Pod B) (backend : Backend) (message : String) :
    (pod.deliver backend message).table = pod.table ∧ (pod.deliver backend message).listener = pod.listener ∧
      (pod.deliver backend message).logged = pod.logged ∧
      (pod.deliver backend message).subscribed = pod.subscribed := by
  unfold Pod.deliver
  split_ifs <;> exact ⟨rfl, rfl, rfl, rfl⟩

/-- What a subscribed pod gets is in its inbox, and what was there makes room for newer messages only. -/
theorem inbox_deliver_ne_nil {pod : Pod B} {backend : Backend} {message : String} (h : pod.subscribed = true) :
    (pod.deliver backend message).inbox ≠ [] := by
  rw [Pod.deliver, if_pos h]
  cases backend with
  | memory =>
    show (if pod.inbox.length < 32 then pod.inbox ++ [message] else pod.inbox.drop 1 ++ [message]) ≠ []
    split_ifs <;> simp
  | redis =>
    show pod.inbox ++ [message] ≠ []
    simp

/-- Why an act makes a rebuild that stands at the listener's place fail. -/
inductive Fails (ctx : ReloadContext B) (store : Store) : Act → Listener B → ReloadError → Prop where
  | files {p : ℕ} {entries : DirEntries} {e : ReloadError} (h : ctx.loadFiles entries = .error e) :
      Fails ctx store (.loadFiles p entries) .building e
  | scan {p : ℕ} {listener : Listener B} : Fails ctx store (.scan p false) listener .storage
  | read {p : ℕ} {listener : Listener B} : Fails ctx store (.read p false) listener .storage
  | record {a : Act} {fileDefs found : List (ApiDefinition B)} {key record : String} {keys : List String}
      {e : DefinitionLoadError} (hget : store.get key = some record)
      (h : loadRecord ctx.records key record = .error e) :
      Fails ctx store a (.reading fileDefs (key :: keys) found) (.record e)
  | assemble {a : Act} {fileDefs found : List (ApiDefinition B)} {e : ReloadError}
      (h : ctx.assemble fileDefs found = .error e) : Fails ctx store a (.reading fileDefs [] found) e

/-- How an act takes a rebuild further. -/
inductive Advances (ctx : ReloadContext B) (store : Store) : Act → Listener B → Listener B → Prop where
  | nudged {a : Act} : Advances ctx store a .waiting .building
  | files {p : ℕ} {entries : DirEntries} {fileDefs : List (ApiDefinition B)}
      (h : ctx.loadFiles entries = .ok fileDefs) :
      Advances ctx store (.loadFiles p entries) .building (.scanning fileDefs)
  | scanned {a : Act} {fileDefs : List (ApiDefinition B)} : Advances ctx store a (.scanning fileDefs)
      (.reading fileDefs (store.scanPrefix (apiDefinitionKeyPrefix ctx.orgId)) [])
  | skipped {a : Act} {fileDefs found : List (ApiDefinition B)} {key : String} {keys : List String}
      (hget : store.get key = none) :
      Advances ctx store a (.reading fileDefs (key :: keys) found) (.reading fileDefs keys found)
  | found {a : Act} {fileDefs found : List (ApiDefinition B)} {key record : String} {keys : List String}
      {d : ApiDefinition B} (hget : store.get key = some record) (h : loadRecord ctx.records key record = .ok d) :
      Advances ctx store a (.reading fileDefs (key :: keys) found) (.reading fileDefs keys (found ++ [d]))

/-- What an act of a pod can do to its listener, its table and its log. -/
inductive Moves (ctx : ReloadContext B) (store : Store) (a : Act) (pod pod' : Pod B) : Prop where
  /-- Nothing: it is about the pipeline. -/
  | pipeline (hlistener : pod'.listener = pod.listener) (htable : pod'.table = pod.table)
      (hlogged : pod'.logged = pod.logged)
  | advance (hlistener : Advances ctx store a pod.listener pod'.listener) (htable : pod'.table = pod.table)
      (hlogged : pod'.logged = pod.logged)
  | fail (e : ReloadError) (hfails : Fails ctx store a pod.listener e) (hlistener : pod'.listener = .waiting)
      (htable : pod'.table = pod.table) (hlogged : pod'.logged = some (.error e))
  | swap (fileDefs found : List (ApiDefinition B)) (hreading : pod.listener = .reading fileDefs [] found)
      (htable : ctx.assemble fileDefs found = .ok pod'.table) (hlistener : pod'.listener = .waiting)
      (hlogged : pod'.logged = some (.ok ()))

theorem moves_of_perform {store : Store} {pod pod' : Pod B} (h : pod.perform ctx store a = some pod') :
    Moves ctx store a pod pod' := by
  cases a with
  | set key record => cases h
  | delete key => cases h
  | publish channel payload => cases h
  | subscribe p =>
    simp only [Pod.perform, Option.ite_none_left_eq_some, Option.some.injEq] at h
    obtain ⟨-, rfl⟩ := h
    exact .pipeline rfl rfl rfl
  | disconnect p =>
    simp only [Pod.perform, Option.ite_none_right_eq_some, Option.some.injEq] at h
    obtain ⟨-, rfl⟩ := h
    exact .pipeline rfl rfl rfl
  | take p =>
    simp only [Pod.perform] at h
    split_ifs at h
    · obtain rfl := Option.some.inj h
      exact .pipeline rfl rfl rfl
    · split at h
      · cases h
      · obtain rfl := Option.some.inj h
        exact .pipeline rfl rfl rfl
  | send p =>
    simp only [Pod.perform] at h
    split at h
    · split_ifs at h
      obtain rfl := Option.some.inj h
      exact .pipeline rfl rfl rfl
    · cases h
  | receive p =>
    simp only [Pod.perform] at h
    split at h
    case h_1 hlistener hreceived =>
      obtain rfl := Option.some.inj h
      exact .advance (by rw [hlistener]; exact .nudged) rfl rfl
    case h_2 => cases h
  | loadFiles p entries =>
    simp only [Pod.perform] at h
    split at h
    case h_1 hlistener =>
      cases hload : ctx.loadFiles entries with
      | ok fileDefs =>
        simp only [hload, Option.some.injEq] at h
        subst h
        exact .advance (by rw [hlistener]; exact .files hload) rfl rfl
      | error e =>
        simp only [hload, Option.some.injEq] at h
        subst h
        exact .fail e (by rw [hlistener]; exact .files hload) rfl rfl rfl
    case h_2 => cases h
  | scan p answers =>
    simp only [Pod.perform] at h
    split at h
    case h_1 fileDefs hlistener =>
      cases answers with
      | true =>
        obtain rfl := Option.some.inj h
        exact .advance (by rw [hlistener]; exact .scanned) rfl rfl
      | false =>
        obtain rfl := Option.some.inj h
        exact .fail .storage .scan rfl rfl rfl
    case h_2 => cases h
  | read p answers =>
    simp only [Pod.perform] at h
    split at h
    case h_1 fileDefs key keys found hlistener =>
      cases answers with
      | true =>
        cases hget : store.get key with
        | none =>
          simp only [hget, if_true, Option.some.injEq] at h
          subst h
          exact .advance (by rw [hlistener]; exact .skipped hget) rfl rfl
        | some record =>
          cases hload : loadRecord ctx.records key record with
          | ok d =>
            simp only [hget, hload, if_true, Option.some.injEq] at h
            subst h
            exact .advance (by rw [hlistener]; exact .found hget hload) rfl rfl
          | error e =>
            simp only [hget, hload, if_true, Option.some.injEq] at h
            subst h
            exact .fail _ (by rw [hlistener]; exact .record hget hload) rfl rfl rfl
      | false =>
        obtain rfl := Option.some.inj h
        exact .fail .storage .read rfl rfl rfl
    case h_2 => cases h
  | finish p =>
    simp only [Pod.perform] at h
    split at h
    case h_1 fileDefs found hlistener =>
      cases hassemble : ctx.assemble fileDefs found with
      | ok table =>
        simp only [hassemble, Option.some.injEq] at h
        subst h
        exact .swap fileDefs found hlistener hassemble rfl rfl
      | error e =>
        simp only [hassemble, Option.some.injEq] at h
        subst h
        exact .fail e (by rw [hlistener]; exact .assemble hassemble) rfl rfl rfl
    case h_2 => cases h

/-- Only a pod's own acts move its listener or its table. -/
theorem moves_of_step (h : step ctx s a = some t) (q : ℕ) : Moves ctx s.store a (s.pods q) (t.pods q) := by
  rcases step_pod h q with heq | ⟨payload, heq⟩ | ⟨-, hperform, -⟩
  · rw [heq]
    exact .pipeline rfl rfl rfl
  · rw [heq]
    obtain ⟨htable, hlistener, hlogged, -⟩ := deliver_frame (s.pods q) ctx.backend payload
    exact .pipeline hlistener htable hlogged
  · exact moves_of_perform hperform

end Steps

/-! ### What a pod serves -/

section Served

variable (ctx : ReloadContext B) (s₀ : System B)

/-- The definition was read from its own key, as it stood at some point of the run so far. -/
def WasStored (past : List Act) (d : ApiDefinition B) : Prop :=
  ∃ before after u record, past = before ++ after ∧ runs (step ctx) s₀ before = some u ∧
    u.store.get (apiDefinitionStorageKey d.orgId d.apiId) = some record ∧ ctx.records.apiFromJson record = .ok d

/-- Valid definitions of files, no two of which share an id or a path. -/
def FromFiles (fileDefs : List (ApiDefinition B)) : Prop :=
  ConflictFree fileDefs ∧ ∀ d ∈ fileDefs, d.validate ctx.records.crates = .ok ()

/-- Valid definitions that were read from the store. -/
def FromStore (past : List Act) (found : List (ApiDefinition B)) : Prop :=
  ∀ d ∈ found, d.validate ctx.records.crates = .ok () ∧ WasStored ctx s₀ past d

/-- The table was built whole, by a rebuild of the run so far. -/
def Built (past : List Act) (table : RouteTable B) : Prop :=
  ∃ fileDefs found defs, FromFiles ctx fileDefs ∧ FromStore ctx s₀ past found ∧ ConflictFree defs ∧
    defs.Perm (fileDefs ++ found) ∧
    RouteTable.build ctx.records.crates ctx.blocks ctx.layers defs = .ok table

/-- What a rebuild under way has so far. -/
def Gathering (past : List Act) : Listener B → Prop
  | .waiting => True
  | .building => True
  | .scanning fileDefs => FromFiles ctx fileDefs
  | .reading fileDefs _ found => FromFiles ctx fileDefs ∧ FromStore ctx s₀ past found

variable {ctx s₀}

theorem WasStored.mono {past : List Act} {d : ApiDefinition B} (h : WasStored ctx s₀ past d) (later : List Act) :
    WasStored ctx s₀ (past ++ later) d := by
  obtain ⟨before, after, u, record, rfl, hrun, hget, hparse⟩ := h
  exact ⟨before, after ++ later, u, record, List.append_assoc .., hrun, hget, hparse⟩

theorem FromStore.mono {past : List Act} {found : List (ApiDefinition B)} (h : FromStore ctx s₀ past found)
    (later : List Act) : FromStore ctx s₀ (past ++ later) found :=
  fun d hd => ⟨(h d hd).1, (h d hd).2.mono later⟩

theorem Built.mono {past : List Act} {table : RouteTable B} (h : Built ctx s₀ past table) (later : List Act) :
    Built ctx s₀ (past ++ later) table := by
  obtain ⟨fileDefs, found, defs, hfiles, hfound, hrest⟩ := h
  exact ⟨fileDefs, found, defs, hfiles, hfound.mono later, hrest⟩

theorem Gathering.mono {past : List Act} {listener : Listener B} (h : Gathering ctx s₀ past listener)
    (later : List Act) : Gathering ctx s₀ (past ++ later) listener := by
  cases listener with
  | waiting => trivial
  | building => trivial
  | scanning fileDefs => exact h
  | reading fileDefs keys found => exact ⟨h.1, h.2.mono later⟩

theorem fromFiles_of_loadFiles {entries : DirEntries} {fileDefs : List (ApiDefinition B)}
    (h : ctx.loadFiles entries = .ok fileDefs) : FromFiles ctx fileDefs :=
  of_loadDir (mapError_eq_ok.1 h)

/-- A record that is read is of a valid definition that is stored under its own key. -/
theorem of_loadRecord {c : RecordCrates B} {key record : String} {d : ApiDefinition B}
    (h : loadRecord c key record = .ok d) :
    c.apiFromJson record = .ok d ∧ d.validate c.crates = .ok () ∧ apiDefinitionStorageKey d.orgId d.apiId = key := by
  simp only [loadRecord, bind_eq_ok, mapError_eq_ok, ensure_eq_ok, pure_eq_ok, decide_eq_true_eq] at h
  obtain ⟨d', hparse, u, hvalid, -, hkey, rfl⟩ := h
  exact ⟨hparse, hvalid, hkey⟩

/-- What is assembled is a conflict-free set, and its table. -/
theorem assemble_eq_ok {fileDefs found : List (ApiDefinition B)} {table : RouteTable B} :
    ctx.assemble fileDefs found = .ok table ↔ ∃ defs, mergeSources fileDefs (found.mergeSort byApiId) = .ok defs ∧
      RouteTable.build ctx.records.crates ctx.blocks ctx.layers defs = .ok table := by
  simp only [ReloadContext.assemble, bind_eq_ok, mapError_eq_ok]

theorem built_of_assemble {past : List Act} {fileDefs found : List (ApiDefinition B)} {table : RouteTable B}
    (hfiles : FromFiles ctx fileDefs) (hfound : FromStore ctx s₀ past found)
    (h : ctx.assemble fileDefs found = .ok table) : Built ctx s₀ past table := by
  obtain ⟨defs, hmerge, hbuild⟩ := assemble_eq_ok.1 h
  obtain ⟨hfree, rfl⟩ := mergeSources_eq_ok.1 hmerge
  refine ⟨fileDefs, found, _, hfiles, hfound, hfree.perm (List.mergeSort_perm _ _).symm, ?_, hbuild⟩
  exact (List.mergeSort_perm _ _).trans ((List.mergeSort_perm _ _).append_left _)

/-- A rebuild gathers valid definitions only, at whatever point of it others write. -/
theorem gathering_of_advances {past : List Act} {s : System B} {a : Act} (hrun : runs (step ctx) s₀ past = some s)
    {listener listener' : Listener B} (h : Gathering ctx s₀ past listener)
    (hadvances : Advances ctx s.store a listener listener') : Gathering ctx s₀ past listener' := by
  cases hadvances with
  | nudged => trivial
  | files hload => exact fromFiles_of_loadFiles hload
  | scanned => exact ⟨h, fun d hd => absurd hd List.not_mem_nil⟩
  | skipped hget => exact h
  | found hget hload =>
    obtain ⟨hparse, hvalid, rfl⟩ := of_loadRecord hload
    refine ⟨h.1, fun d hd => ?_⟩
    rcases List.mem_append.1 hd with hd | hd
    · exact h.2 d hd
    · obtain rfl := List.mem_singleton.1 hd
      exact ⟨hvalid, past, [], s, _, (List.append_nil _).symm, hrun, hget, hparse⟩

/-- **What a pod serves was built whole.** In every run, whatever is written while pods rebuild and wherever the
storage fails, a pod serves the table it started with or one that was built from valid definitions of which no two
conflict; each of the stored ones was read from its own key. -/
theorem served_table_built (hstart : ∀ p, (s₀.pods p).listener = .waiting) {acts : List Act} {t : System B}
    (hrun : runs (step ctx) s₀ acts = some t) (p : ℕ) :
    (t.pods p).table = (s₀.pods p).table ∨ Built ctx s₀ acts (t.pods p).table := by
  let Inv (past : List Act) (s : System B) : Prop := runs (step ctx) s₀ past = some s ∧
    ((s.pods p).table = (s₀.pods p).table ∨ Built ctx s₀ past (s.pods p).table) ∧
    Gathering ctx s₀ past (s.pods p).listener
  have hinv : Inv ([] ++ acts) t := by
    have hfirst : Gathering ctx s₀ [] (s₀.pods p).listener := by
      rw [hstart p]
      trivial
    refine history_of_runs Inv (fun past s a u hpresent hstep => ?_) ⟨rfl, .inl rfl, hfirst⟩ hrun
    obtain ⟨hpast, hserved, hgathering⟩ := hpresent
    have hrun' : runs (step ctx) s₀ (past ++ [a]) = some u := runs_append.2 ⟨s, hpast, by simp [runs, hstep]⟩
    have hkept (htable : (u.pods p).table = (s.pods p).table) :
        (u.pods p).table = (s₀.pods p).table ∨ Built ctx s₀ (past ++ [a]) (u.pods p).table := by
      rw [htable]
      exact hserved.imp_right fun h => h.mono [a]
    refine ⟨hrun', ?_⟩
    cases moves_of_step hstep p with
    | pipeline hlistener htable => exact ⟨hkept htable, by rw [hlistener]; exact hgathering.mono [a]⟩
    | advance hadvances htable => exact ⟨hkept htable, (gathering_of_advances hpast hgathering hadvances).mono [a]⟩
    | fail e hfails hlistener htable => exact ⟨hkept htable, by rw [hlistener]; trivial⟩
    | swap fileDefs found hreading hassemble hlistener =>
      rw [hreading] at hgathering
      exact ⟨.inr ((built_of_assemble hgathering.1 hgathering.2 hassemble).mono [a]), by rw [hlistener]; trivial⟩
  exact hinv.2.1

end Served

/-! ### After a nudge -/

/-- A nudge is on its way to the listener. -/
def Pod.Pending (pod : Pod B) : Prop := pod.inbox ≠ [] ∨ pod.forwarding ≠ none ∨ pod.received ≠ []

/-- The last rebuild, of files as they were seen and of the definitions of a store: the pod serves its table, or has
logged why there is none; or there was an outage. -/
inductive Settled (ctx : ReloadContext B) (seen : DirEntries → Prop) (outage : Prop) (store : Store) (pod : Pod B) :
    Prop where
  | rebuilt (entries : DirEntries) (hseen : seen entries) (hlogged : pod.logged = some (.ok ()))
      (h : ctx.buildTable entries store = .ok pod.table)
  | refused (entries : DirEntries) (e : ReloadError) (hseen : seen entries) (hlogged : pod.logged = some (.error e))
      (h : ctx.buildTable entries store = .error e)
  | outage (h : outage) (hlogged : pod.logged = some (.error .storage))

/-- The act writes no definition of the organization. -/
def Act.Spares (ctx : ReloadContext B) : Act → Prop
  | .set key _ | .delete key => Text.startsWith (apiDefinitionKeyPrefix ctx.orgId) key = false
  | _ => True

/-- The stores have the same definitions of the organization. -/
structure Agrees (ctx : ReloadContext B) (store store' : Store) : Prop where
  scan : store'.scanPrefix (apiDefinitionKeyPrefix ctx.orgId) = store.scanPrefix (apiDefinitionKeyPrefix ctx.orgId)
  get : ∀ key, Text.startsWith (apiDefinitionKeyPrefix ctx.orgId) key = true → store'.get key = store.get key

section Nudge

variable {ctx : ReloadContext B} {seen : DirEntries → Prop} {outage : Prop}

/-- One round of the loop over the keys. -/
def readKey (ctx : ReloadContext B) (store : Store) (key : String) :
    Except DefinitionLoadError (Option (ApiDefinition B)) :=
  match store.get key with
  | none => .ok none
  | some record => some <$> loadRecord ctx.records key record

theorem readKey_of_get {store : Store} {key record : String} (h : store.get key = some record) :
    readKey ctx store key = some <$> loadRecord ctx.records key record := by
  simp only [readKey, h]

theorem readAll_eq (store : Store) : readAll store (apiDefinitionKeyPrefix ctx.orgId) (loadRecord ctx.records) =
    (store.scanPrefix (apiDefinitionKeyPrefix ctx.orgId)).filterMapM (readKey ctx store) := rfl

/-- The rebuild as the listener makes it: the files, the loop, and the end. -/
theorem buildTable_eq (entries : DirEntries) (store : Store) : ctx.buildTable entries store = (do
    let fileDefs ← ctx.loadFiles entries
    let found ← ((store.scanPrefix (apiDefinitionKeyPrefix ctx.orgId)).filterMapM (readKey ctx store)).mapError .record
    ctx.assemble fileDefs found) := by
  rw [ReloadContext.buildTable]
  cases ctx.loadFiles entries with
  | error e => rfl
  | ok fileDefs =>
    rw [ok_bind, ok_bind, loadApiDefinitions, readAll_eq]
    cases (store.scanPrefix (apiDefinitionKeyPrefix ctx.orgId)).filterMapM (readKey ctx store) with
    | error e => rfl
    | ok found => rfl

theorem Agrees.refl (store : Store) : Agrees ctx store store := ⟨rfl, fun _ _ => rfl⟩

theorem Agrees.trans {store store' store'' : Store} (h : Agrees ctx store store') (h' : Agrees ctx store' store'') :
    Agrees ctx store store'' :=
  ⟨h'.scan.trans h.scan, fun key hkey => (h'.get key hkey).trans (h.get key hkey)⟩

/-- Rebuilds against stores that agree come to the same. -/
theorem Agrees.buildTable {store store' : Store} (h : Agrees ctx store store') (entries : DirEntries) :
    ctx.buildTable entries store' = ctx.buildTable entries store := by
  have hread : (store'.scanPrefix (apiDefinitionKeyPrefix ctx.orgId)).filterMapM (readKey ctx store') =
      (store.scanPrefix (apiDefinitionKeyPrefix ctx.orgId)).filterMapM (readKey ctx store) := by
    rw [h.scan]
    have hunder : ∀ key ∈ store.scanPrefix (apiDefinitionKeyPrefix ctx.orgId),
        Text.startsWith (apiDefinitionKeyPrefix ctx.orgId) key = true := fun key hkey => (List.mem_filter.1 hkey).2
    generalize store.scanPrefix (apiDefinitionKeyPrefix ctx.orgId) = keys at hunder
    induction keys with
    | nil => rfl
    | cons key keys ih =>
      obtain ⟨hkey, hkeys⟩ := List.forall_mem_cons.1 hunder
      rw [List.filterMapM_cons, List.filterMapM_cons, ih hkeys, readKey, readKey, h.get key hkey]
  rw [buildTable_eq, buildTable_eq, hread]

theorem Settled.of_agrees {store store' : Store} {pod : Pod B} (h : Settled ctx seen outage store pod)
    (hagrees : Agrees ctx store store') : Settled ctx seen outage store' pod := by
  cases h with
  | rebuilt entries hseen hlogged h => exact .rebuilt entries hseen hlogged (by rw [hagrees.buildTable, h])
  | refused entries e hseen hlogged h => exact .refused entries e hseen hlogged (by rw [hagrees.buildTable, h])
  | outage h hlogged => exact .outage h hlogged

/-- What an act that spares the organization's definitions leaves. -/
theorem agrees_of_step {s t : System B} {a : Act} (hspares : a.Spares ctx) (h : step ctx s a = some t) :
    Agrees ctx s.store t.store := by
  have hscan (key : String) (hkey : Text.startsWith (apiDefinitionKeyPrefix ctx.orgId) key = false) :
      (List.map Prod.fst (s.store.filter fun e => e.1 ≠ key)).filter
          (Text.startsWith (apiDefinitionKeyPrefix ctx.orgId)) =
        s.store.scanPrefix (apiDefinitionKeyPrefix ctx.orgId) := by
    rw [Store.scanPrefix, List.filter_map, List.filter_map, List.filter_filter]
    congr 1
    refine List.filter_congr fun e _ => ?_
    by_cases he : e.1 = key
    · simp [he, hkey]
    · simp [he]
  have hne {key other : String} (hkey : Text.startsWith (apiDefinitionKeyPrefix ctx.orgId) key = false)
      (hother : Text.startsWith (apiDefinitionKeyPrefix ctx.orgId) other = true) : other ≠ key := by
    rintro rfl
    simp [hkey] at hother
  have hpods {o : Option (Pod B)} {p : ℕ}
      (ho : o.map (fun pod => { s with pods := Function.update s.pods p pod }) = some t) :
      Agrees ctx s.store t.store := by
    obtain ⟨pod, -, rfl⟩ := Option.map_eq_some_iff.1 ho
    exact Agrees.refl _
  cases a with
  | set key record =>
    obtain rfl := Option.some.inj h
    refine ⟨?_, fun other hother => by rw [Store.get_set, if_neg (hne hspares hother)]⟩
    show (key :: List.map Prod.fst (s.store.filter fun e => e.1 ≠ key)).filter _ = _
    have hkey : Text.startsWith (apiDefinitionKeyPrefix ctx.orgId) key = false := hspares
    rw [List.filter_cons_of_neg (by simp [hkey]), hscan key hkey]
  | delete key =>
    obtain rfl := Option.some.inj h
    exact ⟨hscan key hspares, fun other hother => by rw [Store.get_delete, if_neg (hne hspares hother)]⟩
  | publish channel payload =>
    simp only [step] at h
    split_ifs at h
    · obtain rfl := Option.some.inj h
      exact Agrees.refl _
    · obtain rfl := Option.some.inj h
      exact Agrees.refl _
  | subscribe p => exact hpods h
  | disconnect p => exact hpods h
  | take p => exact hpods h
  | send p => exact hpods h
  | receive p => exact hpods h
  | loadFiles p entries => exact hpods h
  | scan p answers => exact hpods h
  | read p answers => exact hpods h
  | finish p => exact hpods h

/-- A rebuild that will come to what one against this store comes to. -/
def OnTrack (ctx : ReloadContext B) (seen : DirEntries → Prop) (outage : Prop) (store : Store) (pod : Pod B) :
    Prop :=
  match pod.listener with
  | .waiting => Settled ctx seen outage store pod
  | .building => True
  | .scanning fileDefs => ∃ entries, seen entries ∧ ctx.loadFiles entries = .ok fileDefs
  | .reading fileDefs keys found => (∃ entries, seen entries ∧ ctx.loadFiles entries = .ok fileDefs) ∧
      (∀ key ∈ keys, Text.startsWith (apiDefinitionKeyPrefix ctx.orgId) key = true) ∧
      (store.scanPrefix (apiDefinitionKeyPrefix ctx.orgId)).filterMapM (readKey ctx store) =
        (found ++ ·) <$> keys.filterMapM (readKey ctx store)

/-- The rest of the loop, one key further. -/
theorem filterMapM_readKey {store : Store} {key : String} {keys : List String} {o : Option (ApiDefinition B)}
    (h : readKey ctx store key = .ok o) : (key :: keys).filterMapM (readKey ctx store) =
      (o.toList ++ ·) <$> keys.filterMapM (readKey ctx store) := by
  rw [List.filterMapM_cons, h, ok_bind]
  cases o with
  | none => cases keys.filterMapM (readKey ctx store) <;> rfl
  | some d => cases keys.filterMapM (readKey ctx store) <;> rfl

/-- A rebuild stays on its track while the store has the same definitions. -/
theorem onTrack_of_moves {store₀ store : Store} (hagrees : Agrees ctx store₀ store) {pod pod' : Pod B} {a : Act}
    (hseen : ∀ p entries, a = .loadFiles p entries → seen entries)
    (houtage : ∀ p, a = .scan p false ∨ a = .read p false → outage)
    (h : OnTrack ctx seen outage store₀ pod) (hmoves : Moves ctx store a pod pod') :
    OnTrack ctx seen outage store₀ pod' := by
  have hread {key : String} (hkey : Text.startsWith (apiDefinitionKeyPrefix ctx.orgId) key = true) :
      readKey ctx store₀ key = readKey ctx store key := by
    rw [readKey, readKey, hagrees.get key hkey]
  cases hmoves with
  | pipeline hlistener htable hlogged =>
    unfold OnTrack at h ⊢
    rw [hlistener]
    split at h
    case h_1 =>
      cases h with
      | rebuilt entries hentries hlog hbuild =>
        exact .rebuilt entries hentries (hlogged.trans hlog) (htable ▸ hbuild)
      | refused entries e hentries hlog hbuild => exact .refused entries e hentries (hlogged.trans hlog) hbuild
      | outage hout hlog => exact .outage hout (hlogged.trans hlog)
    case h_2 => trivial
    case h_3 => exact h
    case h_4 => exact h
  | advance hadvances htable hlogged =>
    unfold OnTrack at h ⊢
    generalize pod.listener = listener at h hadvances
    generalize pod'.listener = listener' at hadvances
    cases hadvances with
    | nudged => trivial
    | @files p entries fileDefs hload => exact ⟨entries, hseen p entries rfl, hload⟩
    | scanned =>
      refine ⟨h, fun key hkey => (List.mem_filter.1 hkey).2, ?_⟩
      rw [hagrees.scan]
      cases (store₀.scanPrefix (apiDefinitionKeyPrefix ctx.orgId)).filterMapM (readKey ctx store₀) <;> rfl
    | @skipped a fileDefs found key keys hget =>
      obtain ⟨hfiles, hunder, hrest⟩ := h
      obtain ⟨hkey, hkeys⟩ := List.forall_mem_cons.1 hunder
      refine ⟨hfiles, hkeys, ?_⟩
      have hnone : readKey ctx store₀ key = .ok none := by rw [hread hkey, readKey, hget]
      rw [hrest, filterMapM_readKey hnone]
      cases keys.filterMapM (readKey ctx store₀) <;> rfl
    | @found a fileDefs found key record keys d hget hload =>
      obtain ⟨hfiles, hunder, hrest⟩ := h
      obtain ⟨hkey, hkeys⟩ := List.forall_mem_cons.1 hunder
      refine ⟨hfiles, hkeys, ?_⟩
      have hsome : readKey ctx store₀ key = .ok (some d) := by rw [hread hkey, readKey_of_get hget, hload]; rfl
      rw [hrest, filterMapM_readKey hsome]
      cases keys.filterMapM (readKey ctx store₀) with
      | error e => rfl
      | ok rest => simp [Functor.map, Except.map]
  | fail e hfails hlistener htable hlogged =>
    unfold OnTrack at h ⊢
    rw [hlistener]
    show Settled ctx seen outage store₀ pod'
    generalize pod.listener = listener at h hfails
    cases hfails with
    | @files p entries e hload =>
      refine .refused entries e (hseen p entries rfl) hlogged ?_
      rw [buildTable_eq, hload]
      rfl
    | @scan p => exact .outage (houtage p (.inl rfl)) hlogged
    | @read p => exact .outage (houtage p (.inr rfl)) hlogged
    | @record a fileDefs found key record keys e hget hload =>
      obtain ⟨⟨entries, hentries, hfiles⟩, hunder, hrest⟩ := h
      have herror : readKey ctx store₀ key = .error e := by
        rw [hread (List.forall_mem_cons.1 hunder).1, readKey_of_get hget, hload]
        rfl
      refine .refused entries _ hentries hlogged ?_
      rw [buildTable_eq, hfiles, hrest, List.filterMapM_cons, herror]
      rfl
    | @assemble a fileDefs found e hassemble =>
      obtain ⟨⟨entries, hentries, hfiles⟩, -, hrest⟩ := h
      refine .refused entries e hentries hlogged ?_
      rw [buildTable_eq, hfiles, hrest, List.filterMapM_nil]
      show ctx.assemble fileDefs (found ++ []) = _
      rw [List.append_nil, hassemble]
  | swap fileDefs found hreading hassemble hlistener hlogged =>
    unfold OnTrack at h ⊢
    rw [hlistener]
    rw [hreading] at h
    obtain ⟨⟨entries, hentries, hfiles⟩, -, hrest⟩ := h
    refine .rebuilt entries hentries hlogged ?_
    rw [buildTable_eq, hfiles, hrest, List.filterMapM_nil]
    show ctx.assemble fileDefs (found ++ []) = _
    rw [List.append_nil, hassemble]

/-- What an act does to a nudge on its way: it leaves it there, or the listener begins to rebuild. -/
theorem pending_of_perform {store : Store} {pod pod' : Pod B} {a : Act} (hsubscribed : pod.subscribed = true)
    (hkept : ∀ p, a ≠ .disconnect p) (h : pod.perform ctx store a = some pod') :
    pod'.subscribed = true ∧ (pod.Pending → pod'.Pending ∨ pod'.listener = .building) := by
  have hsame {pod'' : Pod B} (hsub : pod''.subscribed = pod.subscribed) (hinbox : pod''.inbox = pod.inbox)
      (hforwarding : pod''.forwarding = pod.forwarding) (hreceived : pod''.received = pod.received) :
      pod''.subscribed = true ∧ (pod.Pending → pod''.Pending ∨ pod''.listener = .building) := by
    refine ⟨hsub.trans hsubscribed, fun hpending => .inl ?_⟩
    unfold Pod.Pending
    rw [hinbox, hforwarding, hreceived]
    exact hpending
  cases a with
  | set key record => cases h
  | delete key => cases h
  | publish channel payload => cases h
  | subscribe p => simp [Pod.perform, hsubscribed] at h
  | disconnect p => exact absurd rfl (hkept p)
  | take p =>
    simp only [Pod.perform] at h
    split_ifs at h
    · obtain rfl := Option.some.inj h
      exact hsame rfl rfl rfl rfl
    · split at h
      · cases h
      · obtain rfl := Option.some.inj h
        exact ⟨hsubscribed, fun _ => .inl (.inr (.inl (by simp)))⟩
  | send p =>
    simp only [Pod.perform] at h
    split at h
    · split_ifs at h
      obtain rfl := Option.some.inj h
      exact ⟨hsubscribed, fun _ => .inl (.inr (.inr (by simp)))⟩
    · cases h
  | receive p =>
    simp only [Pod.perform] at h
    split at h
    · obtain rfl := Option.some.inj h
      exact ⟨hsubscribed, fun _ => .inr rfl⟩
    · cases h
  | loadFiles p entries =>
    simp only [Pod.perform] at h
    split at h
    · split at h <;> obtain rfl := Option.some.inj h <;> exact hsame rfl rfl rfl rfl
    · cases h
  | scan p answers =>
    simp only [Pod.perform] at h
    split at h
    · split_ifs at h <;> obtain rfl := Option.some.inj h <;> exact hsame rfl rfl rfl rfl
    · cases h
  | read p answers =>
    simp only [Pod.perform] at h
    split at h
    · split_ifs at h
      · split at h
        · obtain rfl := Option.some.inj h
          exact hsame rfl rfl rfl rfl
        · split at h <;> obtain rfl := Option.some.inj h <;> exact hsame rfl rfl rfl rfl
      · obtain rfl := Option.some.inj h
        exact hsame rfl rfl rfl rfl
    · cases h
  | finish p =>
    simp only [Pod.perform] at h
    split at h
    · split at h <;> obtain rfl := Option.some.inj h <;> exact hsame rfl rfl rfl rfl
    · cases h

/-- The state of a pod after a nudge: the nudge is on its way, or a rebuild is on its track. -/
structure Nudged (ctx : ReloadContext B) (seen : DirEntries → Prop) (outage : Prop) (store : Store) (pod : Pod B) :
    Prop where
  subscribed : pod.subscribed = true
  underway : pod.Pending ∨ OnTrack ctx seen outage store pod

theorem nudged_of_step {store₀ : Store} {s t : System B} {a : Act} {p : ℕ} (hagrees : Agrees ctx store₀ s.store)
    (hkept : a ≠ .disconnect p) (hseen : ∀ entries, a = .loadFiles p entries → seen entries)
    (houtage : a = .scan p false ∨ a = .read p false → outage) (h : Nudged ctx seen outage store₀ (s.pods p))
    (hstep : step ctx s a = some t) : Nudged ctx seen outage store₀ (t.pods p) := by
  rcases step_pod hstep p with heq | ⟨payload, heq⟩ | ⟨hpod, hperform, -⟩
  · rw [heq]
    exact h
  · rw [heq]
    exact ⟨(deliver_frame (s.pods p) ctx.backend payload).2.2.2.trans h.subscribed,
      .inl (.inl (inbox_deliver_ne_nil h.subscribed))⟩
  · have hown {b : Act} {q : ℕ} (hb : b.pod = some q) (ha : a = b) : q = p := by
      rw [ha, hb] at hpod
      exact Option.some.inj hpod
    have hkept' : ∀ q, a ≠ .disconnect q := by
      intro q ha
      obtain rfl := hown rfl ha
      exact hkept ha
    obtain ⟨hsubscribed, hpending⟩ := pending_of_perform h.subscribed hkept' hperform
    refine ⟨hsubscribed, ?_⟩
    rcases h.underway with hunderway | hunderway
    · refine (hpending hunderway).imp_right fun hbuilding => ?_
      unfold OnTrack
      rw [hbuilding]
      trivial
    · refine .inr (onTrack_of_moves hagrees (fun q entries ha => ?_) (fun q ha => ?_) hunderway
        (moves_of_step hstep p))
      · obtain rfl := hown rfl ha
        exact hseen entries ha
      · rcases ha with ha | ha
        · obtain rfl := hown rfl ha
          exact houtage (.inl ha)
        · obtain rfl := hown rfl ha
          exact houtage (.inr ha)

/-- A pod that was nudged comes to rest only after a rebuild of the definitions as they are. -/
theorem settled_of_nudge {s s₁ t : System B} {acts : List Act} {p : ℕ} {payload : String}
    (hsubscribed : (s.pods p).subscribed = true)
    (hpublish : step ctx s (.publish (reloadChannel ctx.orgId) payload) = some s₁)
    (hrun : runs (step ctx) s₁ acts = some t) (hspares : ∀ a ∈ acts, a.Spares ctx ∧ a ≠ .disconnect p)
    (hidle : (t.pods p).Idle) :
    Agrees ctx s₁.store t.store ∧ Settled ctx (fun entries => .loadFiles p entries ∈ acts)
      (.scan p false ∈ acts ∨ .read p false ∈ acts) s₁.store (t.pods p) := by
  let seen (entries : DirEntries) : Prop := .loadFiles p entries ∈ acts
  let outage : Prop := .scan p false ∈ acts ∨ .read p false ∈ acts
  have hstart : Nudged ctx seen outage s₁.store (s₁.pods p) := by
    rw [step, if_pos rfl, Option.some.injEq] at hpublish
    subst hpublish
    exact ⟨(deliver_frame (s.pods p) ctx.backend payload).2.2.2.trans hsubscribed,
      .inl (.inl (inbox_deliver_ne_nil hsubscribed))⟩
  obtain ⟨hagrees, hnudged⟩ : Agrees ctx s₁.store t.store ∧ Nudged ctx seen outage s₁.store (t.pods p) := by
    refine inv_of_runs (fun u => Agrees ctx s₁.store u.store ∧ Nudged ctx seen outage s₁.store (u.pods p))
      (fun u a ha v hinv hstep => ?_) ⟨Agrees.refl _, hstart⟩ hrun
    refine ⟨hinv.1.trans (agrees_of_step (hspares a ha).1 hstep),
      nudged_of_step hinv.1 (hspares a ha).2 (fun entries heq => ?_) (fun hor => ?_) hinv.2 hstep⟩
    · show Act.loadFiles p entries ∈ acts
      rwa [← heq]
    · rcases hor with rfl | rfl
      · exact .inl ha
      · exact .inr ha
  refine ⟨hagrees, ?_⟩
  obtain ⟨hinbox, hforwarding, hreceived, hwaiting⟩ := hidle
  rcases hnudged.underway with hpending | htrack
  · rcases hpending with hpending | hpending | hpending
    · exact absurd hinbox hpending
    · exact absurd hforwarding hpending
    · exact absurd hreceived hpending
  · unfold OnTrack at htrack
    rwa [hwaiting] at htrack

/-- **A nudge is enough.** Once a nudge is published while a pod is subscribed, and as long as no definition of the
organization is written after that and the subscription holds, the pod comes to rest only after a rebuild that was made
of the definitions as they are and of files read after the nudge: it serves their table, or it has logged why there is
none, or the storage failed it. Other nudges, writes of other records, other pods and messages that are dropped on the
way do not matter. -/
theorem nudge_converges {s s₁ t : System B} {acts : List Act} {p : ℕ} {payload : String}
    (hsubscribed : (s.pods p).subscribed = true)
    (hpublish : step ctx s (.publish (reloadChannel ctx.orgId) payload) = some s₁)
    (hrun : runs (step ctx) s₁ acts = some t) (hspares : ∀ a ∈ acts, a.Spares ctx ∧ a ≠ .disconnect p)
    (hidle : (t.pods p).Idle) :
    Settled ctx (fun entries => .loadFiles p entries ∈ acts) (.scan p false ∈ acts ∨ .read p false ∈ acts) t.store
      (t.pods p) := by
  obtain ⟨hagrees, hsettled⟩ := settled_of_nudge hsubscribed hpublish hrun hspares hidle
  exact hsettled.of_agrees hagrees

end Nudge

/-! ### Coming to rest -/

section Rest

variable {ctx : ReloadContext B}

/-- The act is one the pod takes when its storage answers and its connection holds; a directory is read as `entries`. -/
def Act.Undisturbed (p : ℕ) (entries : DirEntries) : Act → Prop
  | .take q | .send q | .receive q | .finish q => q = p
  | .scan q answers | .read q answers => q = p ∧ answers = true
  | .loadFiles q entries' => q = p ∧ entries' = entries
  | .set _ _ | .delete _ | .publish _ _ | .subscribe _ | .disconnect _ => False

/-- How far a rebuild is from its end, where a scan finds `keys` keys. -/
def Listener.left (keys : ℕ) : Listener B → ℕ
  | .waiting => 0
  | .building => keys + 3
  | .scanning _ => keys + 2
  | .reading _ rest _ => rest.length + 1

/-- How far a pod is from rest. -/
def Pod.left (keys : ℕ) (pod : Pod B) : ℕ :=
  (keys + 7) * pod.inbox.length + (if pod.lagged then 1 else 0) + (keys + 6) * pod.forwarding.toList.length +
    (keys + 5) * pod.received.length + pod.listener.left keys

/-- Progress of a rebuild brings a pod nearer to rest. -/
theorem left_lt {keys : ℕ} {pod pod' : Pod B} (hinbox : pod'.inbox = pod.inbox) (hlagged : pod'.lagged = pod.lagged)
    (hforwarding : pod'.forwarding = pod.forwarding) (hreceived : pod'.received = pod.received)
    (h : pod'.listener.left keys < pod.listener.left keys) : pod'.left keys < pod.left keys := by
  simp only [Pod.left, hinbox, hlagged, hforwarding, hreceived]
  omega

/-- A pod that is not at rest can act, and is nearer to rest after that. -/
theorem exists_act (ctx : ReloadContext B) (store : Store) {pod : Pod B} (p : ℕ) (entries : DirEntries)
    (hbusy : ¬ pod.Idle) :
    ∃ a pod', a.pod = some p ∧ a.Undisturbed p entries ∧ pod.perform ctx store a = some pod' ∧
      pod'.left (store.scanPrefix (apiDefinitionKeyPrefix ctx.orgId)).length <
        pod.left (store.scanPrefix (apiDefinitionKeyPrefix ctx.orgId)).length := by
  cases hlistener : pod.listener with
  | building =>
    cases hload : ctx.loadFiles entries with
    | ok fileDefs =>
      refine ⟨.loadFiles p entries, { pod with listener := .scanning fileDefs }, rfl, ⟨rfl, rfl⟩, ?_, ?_⟩
      · simp only [Pod.perform, hlistener, hload]
      · exact left_lt rfl rfl rfl rfl (by simp [hlistener, Listener.left])
    | error e =>
      refine ⟨.loadFiles p entries, pod.fail e, rfl, ⟨rfl, rfl⟩, ?_, ?_⟩
      · simp only [Pod.perform, hlistener, hload]
      · exact left_lt rfl rfl rfl rfl (by simp [hlistener, Listener.left, Pod.fail])
  | scanning fileDefs =>
    refine ⟨.scan p true, { pod with listener := .reading fileDefs (store.scanPrefix (apiDefinitionKeyPrefix ctx.orgId)) [] },
      rfl, ⟨rfl, rfl⟩, ?_, ?_⟩
    · simp only [Pod.perform, hlistener, if_true]
    · exact left_lt rfl rfl rfl rfl (by simp [hlistener, Listener.left])
  | reading fileDefs keys found =>
    cases keys with
    | nil =>
      cases hassemble : ctx.assemble fileDefs found with
      | ok table =>
        refine ⟨.finish p, pod.swap table, rfl, rfl, ?_, ?_⟩
        · simp only [Pod.perform, hlistener, hassemble]
        · exact left_lt rfl rfl rfl rfl (by simp [hlistener, Listener.left, Pod.swap])
      | error e =>
        refine ⟨.finish p, pod.fail e, rfl, rfl, ?_, ?_⟩
        · simp only [Pod.perform, hlistener, hassemble]
        · exact left_lt rfl rfl rfl rfl (by simp [hlistener, Listener.left, Pod.fail])
    | cons key keys =>
      cases hget : store.get key with
      | none =>
        refine ⟨.read p true, { pod with listener := .reading fileDefs keys found }, rfl, ⟨rfl, rfl⟩, ?_, ?_⟩
        · simp only [Pod.perform, hlistener, hget, if_true]
        · exact left_lt rfl rfl rfl rfl (by simp [hlistener, Listener.left])
      | some record =>
        cases hload : loadRecord ctx.records key record with
        | ok d =>
          refine ⟨.read p true, { pod with listener := .reading fileDefs keys (found ++ [d]) }, rfl, ⟨rfl, rfl⟩,
            ?_, ?_⟩
          · simp only [Pod.perform, hlistener, hget, hload, if_true]
          · exact left_lt rfl rfl rfl rfl (by simp [hlistener, Listener.left])
        | error e =>
          refine ⟨.read p true, pod.fail (.record e), rfl, ⟨rfl, rfl⟩, ?_, ?_⟩
          · simp only [Pod.perform, hlistener, hget, hload, if_true]
          · exact left_lt rfl rfl rfl rfl (by simp [hlistener, Listener.left, Pod.fail])
  | waiting =>
    cases hreceived : pod.received with
    | cons message received =>
      refine ⟨.receive p, { pod with received, listener := .building }, rfl, rfl, by
        simp [Pod.perform, hlistener, hreceived], ?_⟩
      simp only [Pod.left, hlistener, Listener.left, hreceived, List.length_cons, Nat.mul_succ]
      omega
    | nil =>
      cases hforwarding : pod.forwarding with
      | some message =>
        refine ⟨.send p, { pod with forwarding := none, received := [message] }, rfl, rfl, by
          simp [Pod.perform, hforwarding, hreceived], ?_⟩
        simp [Pod.left, hlistener, Listener.left, hforwarding, hreceived]
      | none =>
        cases hlagged : pod.lagged with
        | true =>
          refine ⟨.take p, { pod with lagged := false }, rfl, rfl, by simp [Pod.perform, hforwarding, hlagged], ?_⟩
          simp [Pod.left, hlagged]
        | false =>
          cases hinbox : pod.inbox with
          | nil => exact absurd ⟨hinbox, hforwarding, hreceived, hlistener⟩ hbusy
          | cons message inbox =>
            refine ⟨.take p, { pod with inbox, forwarding := some message }, rfl, rfl, by
              simp [Pod.perform, hforwarding, hlagged, hinbox], ?_⟩
            simp only [Pod.left, hlistener, Listener.left, hforwarding, hinbox, List.length_cons, Nat.mul_succ,
              Option.toList_some, Option.toList_none, List.length_nil]
            omega

theorem step_of_perform {s : System B} {a : Act} {p : ℕ} {pod : Pod B} (ha : a.pod = some p)
    (h : (s.pods p).perform ctx s.store a = some pod) :
    step ctx s a = some { s with pods := Function.update s.pods p pod } := by
  cases a with
  | set key record => cases ha
  | delete key => cases ha
  | publish channel payload => cases ha
  | _ =>
    obtain rfl := Option.some.inj ha
    simp only [step, h, Option.map_some]

/-- A pod that is left alone comes to rest, and leaves everything else as it is. -/
theorem exists_rest (ctx : ReloadContext B) (s : System B) (p : ℕ) (entries : DirEntries) : ∃ acts t,
    (∀ a ∈ acts, a.Undisturbed p entries) ∧ runs (step ctx) s acts = some t ∧ (t.pods p).Idle ∧ t.store = s.store ∧
      ∀ q ≠ p, t.pods q = s.pods q := by
  induction hleft : (s.pods p).left (s.store.scanPrefix (apiDefinitionKeyPrefix ctx.orgId)).length using
    Nat.strong_induction_on generalizing s with
  | _ n ih =>
    by_cases hidle : (s.pods p).Idle
    · exact ⟨[], s, by simp, rfl, hidle, rfl, fun q _ => rfl⟩
    · obtain ⟨a, pod, ha, hundisturbed, hperform, hlt⟩ := exists_act ctx s.store p entries hidle
      obtain ⟨acts, t, hacts, hrun, hrest, hstore, hothers⟩ :=
        ih _ (hleft ▸ hlt) { s with pods := Function.update s.pods p pod } (by simp)
      refine ⟨a :: acts, t, ?_, runs_cons.2 ⟨_, step_of_perform ha hperform, hrun⟩, hrest, hstore, fun q hq => ?_⟩
      · intro b hb
        rcases List.mem_cons.1 hb with rfl | hb
        · exact hundisturbed
        · exact hacts b hb
      · rw [hothers q hq]
        simp [Function.update_of_ne hq]

/-- An undisturbed act of the pod writes nothing and keeps the connection. -/
theorem Act.Undisturbed.spares {a : Act} {p : ℕ} {entries : DirEntries} (h : a.Undisturbed p entries)
    (ctx : ReloadContext B) : a.Spares ctx ∧ a ≠ .disconnect p := by
  refine ⟨by cases a <;> trivial, ?_⟩
  rintro rfl
  exact h

/-- It does not fail, and reads the directory as it is given. -/
theorem Act.Undisturbed.answers {a : Act} {p : ℕ} {entries : DirEntries} (h : a.Undisturbed p entries) :
    a ≠ .scan p false ∧ a ≠ .read p false ∧ ∀ entries', a = .loadFiles p entries' → entries' = entries := by
  refine ⟨?_, ?_, ?_⟩
  · rintro rfl
    cases h.2
  · rintro rfl
    cases h.2
  · rintro entries' rfl
    exact h.2

/-- A rebuild that came to this was the pod's last one. -/
def Pod.Shows (pod : Pod B) : Except ReloadError (RouteTable B) → Prop
  | .ok table => pod.table = table ∧ pod.logged = some (.ok ())
  | .error e => pod.logged = some (.error e)

/-- **A nudge takes effect.** Whatever a subscribed pod is doing when a nudge is published, with however many nudges and
rebuilds before it, the pod has a way to rest on its own, and at rest it has made of the definitions as they are what a
rebuild at one stroke makes of them; nothing else has changed. -/
theorem nudge_takes_effect {s s₁ : System B} {p : ℕ} {payload : String} (hsubscribed : (s.pods p).subscribed = true)
    (hpublish : step ctx s (.publish (reloadChannel ctx.orgId) payload) = some s₁) (entries : DirEntries) :
    ∃ acts t, (∀ a ∈ acts, a.Undisturbed p entries) ∧ runs (step ctx) s₁ acts = some t ∧ (t.pods p).Idle ∧
      t.store = s₁.store ∧ (∀ q ≠ p, t.pods q = s₁.pods q) ∧
      (t.pods p).Shows (ctx.buildTable entries s₁.store) := by
  obtain ⟨acts, t, hacts, hrun, hidle, hstore, hothers⟩ := exists_rest ctx s₁ p entries
  refine ⟨acts, t, hacts, hrun, hidle, hstore, hothers, ?_⟩
  obtain ⟨-, hsettled⟩ := settled_of_nudge hsubscribed hpublish hrun (fun a ha => (hacts a ha).spares ctx) hidle
  cases hsettled with
  | rebuilt entries' hseen hlogged h =>
    obtain rfl := (hacts _ hseen).answers.2.2 _ rfl
    rw [h]
    exact ⟨rfl, hlogged⟩
  | refused entries' e hseen hlogged h =>
    obtain rfl := (hacts _ hseen).answers.2.2 _ rfl
    rw [h]
    exact hlogged
  | outage h hlogged =>
    rcases h with h | h
    · exact absurd rfl (hacts _ h).answers.1
    · exact absurd rfl (hacts _ h).answers.2.1

end Rest

/-! ### Routes of a merged set -/

section Merged

variable {c : Crates B} {blocks : TargetBlocks B} {layers : ApiDefinition B → Except InvalidApiDefinition Unit}
  {fileDefs storageDefs defs : List (ApiDefinition B)} {table : RouteTable B}

/-- **No two definitions of a merged set compete for a path.** A path is routed to the one active definition whose
listen prefix is longer than that of every other that stands at its front, if there is one; and a pod that finds the
same definitions in another order, or in the other source, has the same table. -/
theorem merged_route_unique (hmerge : mergeSources fileDefs storageDefs = .ok defs)
    (h : RouteTable.build c blocks layers defs = .ok table) :
    (∀ path d, (∃ r, table.matchPath path = some r ∧ r.def_ = d) ↔
      d ∈ fileDefs ++ storageDefs ∧ d.active = true ∧ WholeSegments (listenPrefixOf d) path ∧
        ∀ d' ∈ fileDefs ++ storageDefs, d' ≠ d → d'.active = true → WholeSegments (listenPrefixOf d') path →
          (listenPrefixOf d').utf8ByteSize < (listenPrefixOf d).utf8ByteSize) ∧
    ∀ fileDefs' storageDefs', (fileDefs ++ storageDefs).Perm (fileDefs' ++ storageDefs') →
      ∃ defs', mergeSources fileDefs' storageDefs' = .ok defs' ∧
        RouteTable.build c blocks layers defs' = .ok table := by
  refine ⟨fun path d => ?_, fun fileDefs' storageDefs' hperm => ⟨defs, mergeSources_perm hperm hmerge, h⟩⟩
  obtain ⟨hfree, rfl⟩ := mergeSources_eq_ok.1 hmerge
  have hmem {d : ApiDefinition B} : d ∈ (fileDefs ++ storageDefs).mergeSort byApiId ↔ d ∈ fileDefs ++ storageDefs :=
    (List.mergeSort_perm _ _).mem_iff
  constructor
  · rintro ⟨r, hmatch, rfl⟩
    obtain ⟨hd, hactive, hkept, hsegments, hlongest, -⟩ := matchPath_some h hmatch
    rw [hkept] at hsegments hlongest
    refine ⟨hmem.1 hd, hactive, hsegments, fun d' hd' hne hactive' hsegments' => ?_⟩
    refine lt_of_le_of_ne (hlongest d' (hmem.2 hd') hactive' hsegments') fun hsize => hne ?_
    exact hfree.eq_of_listenPath hd' (hmem.1 hd) (eq_of_prefixes hsegments' hsegments hsize)
  · rintro ⟨hd, hactive, hsegments, hlongest⟩
    cases hmatch : table.matchPath path with
    | none => exact absurd hsegments ((matchPath_none h).1 hmatch d (hmem.2 hd) hactive)
    | some r =>
      refine ⟨r, rfl, ?_⟩
      obtain ⟨hd', hactive', hkept, hsegments', hlongest', -⟩ := matchPath_some h hmatch
      by_contra hne
      have hlt := hlongest r.def_ (hmem.1 hd') hne hactive' (hkept ▸ hsegments')
      have hle := hlongest' d (hmem.2 hd) hactive hsegments
      rw [hkept] at hle
      omega

end Merged

/-! ### Runs of one pod -/

instance (listener : Listener B) : Decidable (listener = .waiting) :=
  match listener with
  | .waiting => isTrue rfl
  | .building => isFalse (by simp)
  | .scanning _ => isFalse (by simp)
  | .reading _ _ _ => isFalse (by simp)

instance (pod : Pod B) : Decidable pod.Idle := inferInstanceAs (Decidable (_ ∧ _ ∧ _ ∧ _))

/-- An API at `/users/`. -/
def usersApi : ApiDefinition Unit := { apiAt "/users/" true with apiId := "users" }

/-- What is stored for an API of this id; of all else there is the default. -/
def usersRecord (id : String) : String :=
  "\x7b\"api_id\":\"" ++ id ++
    "\",\"name\":\"api\",\"listen_path\":\"/users/\",\"target_url\":\"http://up.internal\"\x7d"

/-- Crates that read the record of the users' API, and no files. -/
def usersContext : ReloadContext Unit where
  records :=
    { crates := plainCrates
      apiToJson := fun d => usersRecord d.apiId
      apiFromJson := fun text =>
        if text = usersRecord "users" then .ok usersApi else .error "missing field `api_id` at line 1 column 2"
      policyToJson := fun _ => "null"
      policyFromJson := fun _ => .error "expected value at line 1 column 1"
      sessionToJson := fun _ => "null"
      hashKey := fun key => "no digest of " ++ key }
  yaml _ := .error "missing field `api_id`"
  blocks := plainBlocks
  layers _ := .ok ()
  appsDir := "apps"
  backend := .memory

/-- One API is stored, and the pods serve none. -/
def beforeNudge : System Unit where
  store := [(apiDefinitionStorageKey "default" "users", usersRecord "users")]
  pods _ := { table := ⟨[]⟩, subscribed := true }

/-- The nudge has arrived everywhere. -/
def afterNudge : System Unit where
  store := beforeNudge.store
  pods p := (beforeNudge.pods p).deliver .memory "reload"

/-- A rebuild of the first pod; meanwhile another API's key is written. -/
def firstRebuild : List Act :=
  [.take 0, .send 0, .set "g2:default:apikey:k" "{}", .receive 0, .loadFiles 0 (.ok []), .take 1, .scan 0 true,
    .read 0 true, .finish 0]

theorem firstRebuild_runs : ∃ t, runs (step usersContext) afterNudge firstRebuild = some t ∧ (t.pods 0).Idle ∧
    (t.pods 0).table.routes.map (·.listenPrefix) = ["/users"] := by
  have hany : (runs (step usersContext) afterNudge firstRebuild).any (fun t => decide ((t.pods 0).Idle ∧
      (t.pods 0).table.routes.map (·.listenPrefix) = ["/users"])) = true := by decide +kernel
  obtain ⟨t, hrun, ht⟩ := (Option.any_eq_true _ _).1 hany
  exact ⟨t, hrun, of_decide_eq_true ht⟩

theorem served_table_built_users : ∃ t, runs (step usersContext) afterNudge firstRebuild = some t ∧
    (t.pods 0).table.routes.map (·.listenPrefix) = ["/users"] ∧
    ((t.pods 0).table = (afterNudge.pods 0).table ∨ Built usersContext afterNudge firstRebuild (t.pods 0).table) := by
  obtain ⟨t, hrun, -, hroutes⟩ := firstRebuild_runs
  exact ⟨t, hrun, hroutes, served_table_built (fun _ => rfl) hrun 0⟩

theorem publish_users : step usersContext beforeNudge (.publish (reloadChannel usersContext.orgId) "reload") =
    some afterNudge := rfl

theorem nudge_converges_users : ∃ t, runs (step usersContext) afterNudge firstRebuild = some t ∧
    (t.pods 0).table.routes.map (·.listenPrefix) = ["/users"] ∧
    Settled usersContext (fun entries => .loadFiles 0 entries ∈ firstRebuild)
      (.scan 0 false ∈ firstRebuild ∨ .read 0 false ∈ firstRebuild) t.store (t.pods 0) := by
  obtain ⟨t, hrun, hidle, hroutes⟩ := firstRebuild_runs
  refine ⟨t, hrun, hroutes, nudge_converges rfl publish_users hrun ?_ hidle⟩
  intro a ha
  simp only [firstRebuild, List.mem_cons, List.not_mem_nil, or_false] at ha
  rcases ha with rfl | rfl | rfl | rfl | rfl | rfl | rfl | rfl | rfl
  all_goals refine ⟨?_, by simp⟩
  all_goals trivial

theorem nudge_takes_effect_users : ∃ acts t, (∀ a ∈ acts, a.Undisturbed 0 (.ok [])) ∧
    runs (step usersContext) afterNudge acts = some t ∧ (t.pods 0).Idle ∧ t.store = afterNudge.store ∧
    (∀ q ≠ 0, t.pods q = afterNudge.pods q) ∧
    (t.pods 0).Shows (usersContext.buildTable (.ok []) afterNudge.store) :=
  nudge_takes_effect rfl publish_users (.ok [])

/-- One below it. -/
def vipApi : ApiDefinition Unit := { apiAt "/users/vip/" true with apiId := "vip" }

theorem merged_route_unique_vip : ∃ defs table, mergeSources [usersApi] [vipApi] = .ok defs ∧
    RouteTable.build plainCrates plainBlocks (fun _ => .ok ()) defs = .ok table ∧
    ∃ r, table.matchPath "/users/vip/7" = some r ∧ r.def_ = vipApi := by
  have hmerge : mergeSources [usersApi] [vipApi] = .ok (([usersApi] ++ [vipApi]).mergeSort byApiId) :=
    mergeSources_eq_ok.2 ⟨⟨by decide, by decide⟩, rfl⟩
  have hbuilds : ∀ d ∈ ([usersApi] ++ [vipApi]).mergeSort byApiId,
      ∃ r, Routing.Route.build plainCrates plainBlocks (fun _ => .ok ()) d = .ok r := by
    intro d hd
    have hd : d ∈ [usersApi] ++ [vipApi] := (List.mergeSort_perm _ _).mem_iff.1 hd
    simp only [List.singleton_append, List.mem_cons, List.not_mem_nil, or_false] at hd
    rcases hd with rfl | rfl
    · exact ⟨_, rfl⟩
    · exact ⟨_, rfl⟩
  obtain ⟨table, h⟩ := exists_build_iff.2 hbuilds
  refine ⟨_, table, hmerge, h, ((merged_route_unique hmerge h).1 "/users/vip/7" vipApi).2 ?_⟩
  refine ⟨by simp, rfl, .inr (.inr ⟨"7", by decide⟩), fun d' hd' hne _ _ => ?_⟩
  simp only [List.singleton_append, List.mem_cons, List.not_mem_nil, or_false] at hd'
  rcases hd' with rfl | rfl
  · decide
  · exact absurd rfl hne

end G2way.Proxy.Reload
