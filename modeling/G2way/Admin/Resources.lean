import G2way.Core.Records
import G2way.Lib.Assoc
import Mathlib.Data.List.Sort
import Mathlib.Data.Set.Basic
import Mathlib.Logic.Function.Basic

/-!
# The admin API's records

The handlers of `g2-admin/src/resources.rs` and `keys.rs` that store records, and the two
readers that enumerate an organization: the `list` handlers, and `load_api_definitions` of
`g2-storage/src/defs.rs`.

## The model

A handler is a few calls of the storage, each atomic, and the calls of several handlers
interleave. `Progress` is where a handler stands between two of them, and `step` is the next
storage call of one handler. A storage call may fail, and a write that is reported as failed may
have been applied or not. The store is a map, written as its list of entries.

## What is proved

"An accidental double-POST must not silently overwrite": one POST after the other does not, but
between a handler's `get` and its `set` another may store. `double_post_overwrites` is such a
run. `create_never_overwrites_iff` says for which requests it cannot happen, and in which runs
it does not.

Keys are joined without escapes, so one organization may lie inside the key space of another.
`resources_isolated_iff` says that this is the only way two organizations are not isolated, and
`policies_share_key` is a case of it.
-/

namespace G2way.Admin

open G2way.Core G2way.Lib G2way.Lib.Result

variable {B : Type}

/-! ### Records and their text -/

/-- What validation asks of crates, and `serde_json` for each type of record. -/
structure RecordCrates (B : Type) where
  crates : Crates B
  apiToJson : ApiDefinition B → String
  apiFromJson : String → Except String (ApiDefinition B)
  policyToJson : Policy → String
  policyFromJson : String → Except String Policy
  sessionToJson : KeySession → String
  /-- `hash_key`. -/
  hashKey : String → String

/-- A record of the generic handlers (`StoredResource`). -/
inductive Resource (B : Type) where
  | api (d : ApiDefinition B)
  | policy (p : Policy)

namespace Resource

/-- The kind of the record. -/
def kind : Resource B → Kind
  | .api _ => .apiDefinition
  | .policy _ => .policy

/-- `KIND`. -/
def label : Resource B → String
  | .api _ => "API definition"
  | .policy _ => "policy"

/-- `id`. -/
def id : Resource B → String
  | .api d => d.apiId
  | .policy p => p.policyId

/-- `org_id`. -/
def orgId : Resource B → String
  | .api d => d.orgId
  | .policy p => p.orgId

/-- `validate`, with the text of its error. -/
def validate (c : RecordCrates B) : Resource B → Except String Unit
  | .api d => (d.validate c.crates).mapError fun e => s!"invalid API definition `{e.api}`: {e.reason}"
  | .policy p => p.validate.mapError fun reason => s!"invalid policy `{p.policyId}`: {reason}"

/-- `serde_json::to_string`. -/
def toJson (c : RecordCrates B) : Resource B → String
  | .api d => c.apiToJson d
  | .policy p => c.policyToJson p

/-- `storage_key` of the record's own organization and id. -/
def storageKey (r : Resource B) : String := r.kind.storageKey r.orgId r.id

end Resource

/-- A record, with the key hash that a session is stored under. -/
inductive Record (B : Type) where
  | resource (r : Resource B)
  | session (keyHash : String) (s : KeySession)

namespace Record

def kind : Record B → Kind
  | .resource r => r.kind
  | .session _ _ => .session

def orgId : Record B → String
  | .resource r => r.orgId
  | .session _ s => s.orgId

/-- What the record is addressed by in its organization. -/
def id : Record B → String
  | .resource r => r.id
  | .session keyHash _ => keyHash

def validate (c : RecordCrates B) : Record B → Except String Unit
  | .resource r => r.validate c
  | .session _ s => s.validate.mapError fun reason => s!"invalid key session: {reason}"

def toJson (c : RecordCrates B) : Record B → String
  | .resource r => r.toJson c
  | .session _ s => c.sessionToJson s

def storageKey (r : Record B) : String := r.kind.storageKey r.orgId r.id

/-- The record passes its validation. -/
def Accepted (c : RecordCrates B) (r : Record B) : Prop := r.validate c = .ok ()

end Record

/-! ### The store -/

/-- A map from keys to records. -/
abbrev Store := List (String × String)

namespace Store

def get (s : Store) (key : String) : Option String := s.lookup key

def set (s : Store) (key record : String) : Store := (key, record) :: s.filter fun e => e.1 ≠ key

def delete (s : Store) (key : String) : Store := s.filter fun e => e.1 ≠ key

/-- `scan_prefix`. -/
def scanPrefix (s : Store) (p : String) : List String := (s.map Prod.fst).filter (Text.startsWith p)

theorem get_filter_ne (s : Store) {key key' : String} (h : key' ≠ key) :
    (s.filter fun e => e.1 ≠ key).lookup key' = s.lookup key' := by
  induction s with
  | nil => rfl
  | cons e s ih =>
    by_cases hk : e.1 = key
    · have hne : (key' == e.1) = false := by simpa [hk] using h
      rw [List.filter_cons_of_neg (by simpa using hk), ih, List.lookup_cons, hne]
    · rw [List.filter_cons_of_pos (by simpa using hk), List.lookup_cons, List.lookup_cons, ih]

theorem get_set (s : Store) (key record key' : String) :
    (s.set key record).get key' = if key' = key then some record else s.get key' := by
  by_cases h : key' = key
  · subst h
    simp [set, get]
  · have hne : (key' == key) = false := by simpa using h
    rw [if_neg h, set, get, List.lookup_cons, hne]
    exact get_filter_ne s h

theorem get_delete (s : Store) (key key' : String) :
    (s.delete key).get key' = if key' = key then none else s.get key' := by
  by_cases h : key' = key
  · subst h
    rw [if_pos rfl, get, delete, List.lookup_eq_none_iff]
    intro e he
    have hne : e.1 ≠ key' := by simpa using (List.mem_filter.mp he).2
    simpa using hne.symm
  · rw [if_neg h]
    exact get_filter_ne s h

end Store

/-! ### Handlers -/

/-- The body of an answer. -/
inductive Body where
  /-- `{"id": …, "action": …}`. -/
  | action (id action : String)
  /-- `{"key": …, "key_hash": …, "action": "added"}`. -/
  | keyAdded (key keyHash : String)
  /-- `{"key_hash": …, "action": …}`. -/
  | keyAction (keyHash action : String)
  /-- `{"action": "deleted"}`. -/
  | keyDeleted
  /-- `{"error": …}`. -/
  | error (message : String)
  deriving DecidableEq, Repr

structure Response where
  status : ℕ
  body : Body
  deriving DecidableEq, Repr

/-- The requests that reach a handler that writes; a query's organization has its default. -/
inductive Request (B : Type) where
  /-- `POST` of a resource. -/
  | create (r : Resource B)
  /-- `PUT` of a resource, with the id of the path. -/
  | put (id : String) (r : Resource B)
  /-- `DELETE` of a resource. -/
  | delete (kind : Kind) (orgId id : String)
  /-- `POST` of a session, with the fresh key it is stored for. -/
  | createKey (rawKey : String) (s : KeySession)
  /-- `PUT` of a session, with the key or the key hash of the path. -/
  | putKey (hashed : Bool) (key : String) (s : KeySession)
  /-- `DELETE` of a session. -/
  | deleteKey (hashed : Bool) (orgId key : String)

/-- Where a handler stands. -/
inductive Progress where
  | start
  /-- It has read the key, and found a record or none. -/
  | read (found : Bool)
  | answered (resp : Response)
  deriving DecidableEq, Repr

/-- How a storage call ends; a write that is reported as failed may have been applied. -/
inductive Outcome where
  | ok
  | failed (applied : Bool)
  deriving DecidableEq, Repr

/-- `storage_unavailable`. -/
def storageUnavailable : Kind → Response
  | .session => ⟨503, .error "key storage unavailable"⟩
  | _ => ⟨503, .error "storage unavailable"⟩

/-- `not_found`. -/
def notFound : Kind → Response
  | .apiDefinition => ⟨404, .error "API definition not found"⟩
  | .policy => ⟨404, .error "policy not found"⟩
  | .session => ⟨404, .error "key not found"⟩

/-- A `get` of the record's key, and how the handler goes on. -/
def getThen (r : Record B) (store : Store) (next : Bool → Progress) : Outcome → Progress × Store
  | .ok => (next (store.get r.storageKey).isSome, store)
  | .failed _ => (.answered (storageUnavailable r.kind), store)

/-- A `set` of the record under its key, and the answer. -/
def setThen (c : RecordCrates B) (r : Record B) (store : Store) (resp : Response) : Outcome → Progress × Store
  | .ok => (.answered resp, store.set r.storageKey (r.toJson c))
  | .failed applied => (.answered (storageUnavailable r.kind),
      if applied then store.set r.storageKey (r.toJson c) else store)

/-- A `delete` of a key, and the answer. -/
def deleteThen (kind : Kind) (key : String) (store : Store) (deleted : Body) : Outcome → Progress × Store
  | .ok => (.answered (if (store.get key).isSome then ⟨200, deleted⟩ else notFound kind), store.delete key)
  | .failed applied => (.answered (storageUnavailable kind), if applied then store.delete key else store)

/-- `KeyAddress::key_hash`. -/
def keyHash (c : RecordCrates B) (hashed : Bool) (key : String) : String := if hashed then key else c.hashKey key

/-- The `400` of a body that does not pass validation, or how the handler goes on. -/
def storable (c : RecordCrates B) (r : Record B) (store : Store) (next : Progress × Store) : Progress × Store :=
  match r.validate c with
  | .error message => (.answered ⟨400, .error message⟩, store)
  | .ok _ => next

/-- The action of a `PUT`. -/
def putAction (found : Bool) : String := if found then "modified" else "added"

/-- The first storage call of a handler. -/
def begin (c : RecordCrates B) (o : Outcome) (store : Store) : Request B → Progress × Store
  | .create r =>
    storable c (.resource r) store <| getThen (.resource r) store (fun found =>
      if found then
        .answered ⟨409, .error s!"{r.label} `{r.id}` already exists; use PUT to update"⟩
      else .read false) o
  | .put id r =>
    if r.id ≠ id then (.answered ⟨400, .error s!"body id `{r.id}` does not match path id `{id}`"⟩, store)
    else storable c (.resource r) store <| getThen (.resource r) store .read o
  | .delete kind orgId id => deleteThen kind (kind.storageKey orgId id) store (.action id "deleted") o
  | .createKey rawKey s =>
    let r : Record B := .session (c.hashKey rawKey) s
    storable c r store <| setThen c r store ⟨201, .keyAdded rawKey (c.hashKey rawKey)⟩ o
  | .putKey hashed key s =>
    let r : Record B := .session (keyHash c hashed key) s
    storable c r store <| getThen r store .read o
  | .deleteKey hashed orgId key =>
    deleteThen .session (Kind.session.storageKey orgId (keyHash c hashed key)) store .keyDeleted o

/-- The second one, of a handler that has read its key. -/
def finish (c : RecordCrates B) (found : Bool) (o : Outcome) (store : Store) : Request B → Progress × Store
  | .create r => setThen c (.resource r) store ⟨201, .action r.id "added"⟩ o
  | .put _ r => setThen c (.resource r) store ⟨200, .action r.id (putAction found)⟩ o
  | .putKey hashed key s =>
    setThen c (.session (keyHash c hashed key) s) store ⟨200, .keyAction (keyHash c hashed key) (putAction found)⟩ o
  | .delete _ _ _ => (.read found, store)
  | .createKey _ _ => (.read found, store)
  | .deleteKey _ _ _ => (.read found, store)

/-- The next storage call of a handler. -/
def handle (c : RecordCrates B) (req : Request B) (progress : Progress) (o : Outcome) (store : Store) :
    Progress × Store :=
  match progress with
  | .start => begin c o store req
  | .read found => finish c found o store req
  | .answered resp => (.answered resp, store)

/-- The store and the handlers under way. -/
structure System where
  store : Store
  progress : ℕ → Progress

/-- The next storage call of one of the handlers. -/
abbrev Act := ℕ × Outcome

section Run

variable (c : RecordCrates B) (reqs : ℕ → Request B)

def step (s : System) (a : Act) : System :=
  let next := handle c (reqs a.1) (s.progress a.1) a.2 s.store
  ⟨next.2, Function.update s.progress a.1 next.1⟩

def run (s : System) (acts : List Act) : System := acts.foldl (step c reqs) s

/-- No handler has begun. -/
def initial (store : Store) : System := ⟨store, fun _ => .start⟩

/-- The record a request asks to store. -/
def Request.record : Request B → Option (Record B)
  | .create r => some (.resource r)
  | .put id r => if r.id = id then some (.resource r) else none
  | .createKey rawKey s => some (.session (c.hashKey rawKey) s)
  | .putKey hashed key s => some (.session (keyHash c hashed key) s)
  | .delete _ _ _ => none
  | .deleteKey _ _ _ => none

/-- The key a request asks to delete. -/
def Request.deletes : Request B → Option String
  | .delete kind orgId id => some (kind.storageKey orgId id)
  | .deleteKey hashed orgId key => some (Kind.session.storageKey orgId (keyHash c hashed key))
  | _ => none

/-- The key a `set` of the record writes, unless it fails and is not applied. -/
def setKey (r : Record B) (o : Outcome) : Option String := if o = .failed false then none else some r.storageKey

/-- The key a `set` of the record writes, if the record is valid. -/
def storableKey (r : Record B) (o : Outcome) : Option String :=
  match r.validate c with
  | .ok _ => setKey r o
  | .error _ => none

/-- The key under which the first storage call of a handler sets a record. -/
def beginKey (o : Outcome) : Request B → Option String
  | .createKey rawKey s => storableKey c (.session (c.hashKey rawKey) s) o
  | _ => none

/-- The key under which the second one does. -/
def finishKey (o : Outcome) : Request B → Option String
  | .create r => setKey (.resource r) o
  | .put _ r => setKey (.resource r) o
  | .putKey hashed key s => setKey (B := B) (.session (keyHash c hashed key) s) o
  | _ => none

/-- The key under which the next storage call of a handler sets a record, if it does. -/
def storedKey (req : Request B) (progress : Progress) (o : Outcome) : Option String :=
  match progress with
  | .start => beginKey c o req
  | .read _ => finishKey c o req
  | .answered _ => none

/-- The key under which a step of the system sets a record, if it does. -/
def storesAt (s : System) (a : Act) : Option String := storedKey c (reqs a.1) (s.progress a.1) a.2

end Run

variable {c : RecordCrates B} {reqs : ℕ → Request B} {s : System}

/-! ### What one storage call does -/

/-- **What a storage call does** for a handler, with the key under which it sets a record. -/
inductive Effect (c : RecordCrates B) (req : Request B) (progress : Progress) (store : Store) :
    Option String → Progress × Store → Prop where
  /-- It has answered before. -/
  | stay : Effect c req progress store none (progress, store)
  /-- It answers. -/
  | answer (resp : Response) : Effect c req progress store none (.answered resp, store)
  /-- It has a valid body, and reads its key. -/
  | read (r : Record B) (hrecord : req.record c = some r) (haccepted : r.Accepted c) :
    Effect c req progress store none (.read (store.get r.storageKey).isSome, store)
  /-- It sets its record, which is valid. -/
  | set (r : Record B) (resp : Response) (hrecord : req.record c = some r) (haccepted : r.Accepted c) :
    Effect c req progress store (some r.storageKey) (.answered resp, store.set r.storageKey (r.toJson c))
  /-- It deletes its key. -/
  | delete (key : String) (resp : Response) (hdeletes : req.deletes c = some key) :
    Effect c req progress store none (.answered resp, store.delete key)

section Effects

variable {req : Request B} {progress : Progress} {o : Outcome} {store : Store}

theorem effect_storable {r : Record B} {next : Progress × Store}
    (h : r.Accepted c → Effect c req progress store none next) :
    Effect c req progress store none (storable c r store next) := by
  unfold storable
  split
  · exact .answer _
  · next hvalid => exact h hvalid

theorem effect_getThen {r : Record B} (hrecord : req.record c = some r) (haccepted : r.Accepted c) :
    Effect c req progress store none (getThen r store .read o) := by
  cases o with
  | ok => exact .read r hrecord haccepted
  | failed applied => exact .answer _

theorem effect_setThen {r : Record B} (resp : Response) (hrecord : req.record c = some r) (haccepted : r.Accepted c) :
    Effect c req progress store (setKey r o) (setThen c r store resp o) := by
  cases o with
  | ok => exact .set r resp hrecord haccepted
  | failed applied =>
    cases applied with
    | false => exact .answer _
    | true => exact .set r _ hrecord haccepted

theorem effect_deleteThen {kind : Kind} {key : String} (deleted : Body) (hdeletes : req.deletes c = some key) :
    Effect c req progress store none (deleteThen kind key store deleted o) := by
  cases o with
  | ok => exact .delete key _ hdeletes
  | failed applied =>
    cases applied with
    | false => exact .answer _
    | true => exact .delete key _ hdeletes

/-- A `create` that finds a record answers. -/
theorem effect_create {r : Resource B} (conflict : Response) (hrecord : req.record c = some (.resource r))
    (haccepted : (Record.resource r).Accepted c) :
    Effect c req progress store none
      (getThen (.resource r) store (fun found => if found then .answered conflict else .read false) o) := by
  cases o with
  | failed applied => exact .answer _
  | ok =>
    have heffect : Effect c req progress store none (.read (store.get (Record.resource r).storageKey).isSome, store) :=
      .read (.resource r) hrecord haccepted
    simp only [getThen]
    cases hfound : (store.get (Record.resource r).storageKey).isSome with
    | true => exact .answer _
    | false =>
      rw [hfound] at heffect
      exact heffect

theorem effect_storableKey {r : Record B} (resp : Response) (hrecord : req.record c = some r) :
    Effect c req progress store (storableKey c r o) (storable c r store (setThen c r store resp o)) := by
  unfold storable storableKey
  cases hvalid : r.validate c with
  | error message => exact .answer _
  | ok _ => exact effect_setThen resp hrecord hvalid

theorem effect_begin (req : Request B) :
    Effect c req .start store (beginKey c o req) (begin c o store req) := by
  cases req with
  | create r =>
    simp only [begin, beginKey]
    exact effect_storable fun haccepted => effect_create _ rfl haccepted
  | put id r =>
    simp only [begin, beginKey]
    split_ifs with hid
    · exact .answer _
    · exact effect_storable fun haccepted => effect_getThen (by simp [Request.record, not_not.mp hid]) haccepted
  | delete kind orgId id =>
    simp only [begin, beginKey]
    exact effect_deleteThen _ rfl
  | createKey rawKey session =>
    simp only [begin, beginKey]
    exact effect_storableKey _ rfl
  | putKey hashed key session =>
    simp only [begin, beginKey]
    exact effect_storable fun haccepted => effect_getThen rfl haccepted
  | deleteKey hashed orgId key =>
    simp only [begin, beginKey]
    exact effect_deleteThen _ rfl

theorem effect_finish {req : Request B} {found : Bool} {r : Record B} (hrecord : req.record c = some r)
    (haccepted : r.Accepted c) :
    Effect c req (.read found) store (finishKey c o req) (finish c found o store req) := by
  cases req with
  | create r' =>
    cases hrecord
    simp only [finish, finishKey]
    exact effect_setThen _ rfl haccepted
  | put id r' =>
    by_cases hid : r'.id = id
    · simp only [Request.record, if_pos hid, Option.some.injEq] at hrecord
      subst hrecord
      simp only [finish, finishKey]
      exact effect_setThen _ (by simp [Request.record, hid]) haccepted
    · simp [Request.record, hid] at hrecord
  | putKey hashed key session =>
    cases hrecord
    simp only [finish, finishKey]
    exact effect_setThen _ rfl haccepted
  | createKey rawKey session =>
    simp only [finish, finishKey]
    exact .stay
  | delete kind orgId id => cases hrecord
  | deleteKey hashed orgId key => cases hrecord

theorem handle_effect (hread : ∀ found, progress = .read found → ∃ r, req.record c = some r ∧ r.Accepted c) :
    Effect c req progress store (storedKey c req progress o) (handle c req progress o store) := by
  cases progress with
  | start =>
    simp only [handle, storedKey]
    exact effect_begin req
  | answered resp =>
    simp only [handle, storedKey]
    exact .stay
  | read found =>
    obtain ⟨r, hrecord, haccepted⟩ := hread found rfl
    simp only [handle, storedKey]
    exact effect_finish hrecord haccepted

end Effects

/-- A handler that has read its key has a valid body. -/
def Sound (c : RecordCrates B) (reqs : ℕ → Request B) (s : System) : Prop :=
  ∀ i found, s.progress i = .read found → ∃ r, (reqs i).record c = some r ∧ r.Accepted c

theorem sound_initial (store : Store) : Sound c reqs (initial store) := by
  intro i found h
  cases h

theorem Sound.effect (h : Sound c reqs s) (a : Act) :
    Effect c (reqs a.1) (s.progress a.1) s.store (storesAt c reqs s a)
      (handle c (reqs a.1) (s.progress a.1) a.2 s.store) :=
  handle_effect (h a.1)

theorem Sound.step (h : Sound c reqs s) (a : Act) : Sound c reqs (step c reqs s a) := by
  intro i found hread
  by_cases hi : i = a.1
  · subst hi
    have hself : (handle c (reqs a.1) (s.progress a.1) a.2 s.store).1 = .read found := by
      simpa [Admin.step] using hread
    have heffect := h.effect a
    generalize handle c (reqs a.1) (s.progress a.1) a.2 s.store = next at hself heffect
    generalize storesAt c reqs s a = stored at heffect
    cases heffect with
    | stay => exact h a.1 found hself
    | answer resp => cases hself
    | read r hrecord haccepted => exact ⟨r, hrecord, haccepted⟩
    | set r resp => cases hself
    | delete key resp => cases hself
  · have hother : (Admin.step c reqs s a).progress i = s.progress i := Function.update_of_ne hi _ _
    exact h i found (hother ▸ hread)

theorem Sound.run (h : Sound c reqs s) (acts : List Act) : Sound c reqs (run c reqs s acts) := by
  induction acts generalizing s with
  | nil => exact h
  | cons a acts ih => exact ih (h.step a)

/-! ### Creating -/

/-- The handler has a `create` for the key, has found the key free, and has still to set its record. -/
def Pending (reqs : ℕ → Request B) (s : System) (j : ℕ) (key : String) : Prop :=
  ∃ r found, reqs j = .create r ∧ r.storageKey = key ∧ s.progress j = .read found

/-- Each step that sets a record does so while no other `create` for its key is pending. -/
def Undisturbed (c : RecordCrates B) (reqs : ℕ → Request B) : System → List Act → Prop
  | _, [] => True
  | s, a :: acts => (∀ key, storesAt c reqs s a = some key → ∀ j ≠ a.1, ¬ Pending reqs s j key) ∧
      Undisturbed c reqs (step c reqs s a) acts

/-- No `create` of the run replaces a record: it sets its own where there is none. -/
def NeverReplaces (c : RecordCrates B) (reqs : ℕ → Request B) : System → List Act → Prop
  | _, [] => True
  | s, a :: acts =>
      (∀ r, reqs a.1 = .create r → storesAt c reqs s a = some r.storageKey → s.store.get r.storageKey = none) ∧
      NeverReplaces c reqs (step c reqs s a) acts

/-- A step at which a handler gives its answer. -/
def Answers (c : RecordCrates B) (reqs : ℕ → Request B) (s : System) (a : Act) (resp : Response) : Prop :=
  (∀ resp', s.progress a.1 ≠ .answered resp') ∧ (step c reqs s a).progress a.1 = .answered resp

/-- Between two `create`s of one key that answer `201` there is a `delete` of that key, and a `create` with a valid body
whose storage calls do not fail answers `201` or `409`. -/
def AnswersOnce (c : RecordCrates B) (reqs : ℕ → Request B) (s : System) (acts : List Act) : Prop :=
  (∀ before a mid b after r r' resp resp', acts = before ++ a :: (mid ++ b :: after) →
    reqs a.1 = .create r → reqs b.1 = .create r' → r'.storageKey = r.storageKey →
    Answers c reqs (run c reqs s before) a resp → resp.status = 201 →
    Answers c reqs (run c reqs s (before ++ a :: mid)) b resp' → resp'.status = 201 →
    ∃ d ∈ mid, (reqs d.1).deletes c = some r.storageKey) ∧
  ∀ before a after r resp, acts = before ++ a :: after → reqs a.1 = .create r →
    Answers c reqs (run c reqs s before) a resp → (Record.resource r).Accepted c → a.2 = .ok →
    resp.status = 201 ∨ resp.status = 409

/-- The keys of pending `create`s are free. -/
def Free (reqs : ℕ → Request B) (s : System) : Prop := ∀ j key, Pending reqs s j key → s.store.get key = none

theorem free_initial (store : Store) : Free reqs (initial store) := by
  rintro j key ⟨r, found, -, -, h⟩
  cases h

/-- A `create` goes on only if it has found nothing. -/
theorem create_read {r : Resource B} {progress : Progress} {o : Outcome} {store : Store} {found : Bool}
    (h : (handle c (.create r) progress o store).1 = .read found) :
    (handle c (.create r) progress o store).2 = store ∧ store.get r.storageKey = none := by
  cases progress with
  | start =>
    simp only [handle, begin, storable] at h ⊢
    split at h
    · cases h
    · cases o with
      | failed applied => cases h
      | ok =>
        simp only [getThen] at h ⊢
        split_ifs at h with hfound
        exact ⟨trivial, Option.not_isSome_iff_eq_none.mp hfound⟩
  | read found' =>
    simp only [handle, finish] at h
    cases o <;> cases h
  | answered resp =>
    simp only [handle] at h
    cases h

theorem step_progress_of_ne {a : Act} {j : ℕ} (h : j ≠ a.1) : (step c reqs s a).progress j = s.progress j :=
  Function.update_of_ne h _ _

theorem step_progress_self (a : Act) :
    (step c reqs s a).progress a.1 = (handle c (reqs a.1) (s.progress a.1) a.2 s.store).1 :=
  Function.update_self _ _ _

/-- A step that does not disturb a pending `create` leaves its key free. -/
theorem free_step (hsound : Sound c reqs s) (h : Free reqs s) {a : Act}
    (hundisturbed : ∀ key, storesAt c reqs s a = some key → ∀ j ≠ a.1, ¬ Pending reqs s j key) :
    Free reqs (step c reqs s a) := by
  rintro j key ⟨r, found, hreq, rfl, hread⟩
  have heffect := hsound.effect a
  have hstore : (step c reqs s a).store = (handle c (reqs a.1) (s.progress a.1) a.2 s.store).2 := rfl
  by_cases hj : j = a.1
  · subst hj
    rw [step_progress_self, hreq] at hread
    obtain ⟨hkept, hfree⟩ := create_read hread
    rw [hstore, hreq, hkept]
    exact hfree
  · rw [step_progress_of_ne hj] at hread
    have hpending : Pending reqs s j r.storageKey := ⟨r, found, hreq, rfl, hread⟩
    have hfree := h j _ hpending
    rw [hstore]
    generalize handle c (reqs a.1) (s.progress a.1) a.2 s.store = next at heffect ⊢
    cases hstored : storesAt c reqs s a with
    | none =>
      rw [hstored] at heffect
      cases heffect with
      | stay => exact hfree
      | answer resp => exact hfree
      | read r' => exact hfree
      | delete key resp =>
        rw [Store.get_delete]
        split_ifs
        · rfl
        · exact hfree
    | some key =>
      have hne : r.storageKey ≠ key := by
        rintro rfl
        exact hundisturbed _ hstored j hj hpending
      rw [hstored] at heffect
      cases heffect with
      | set r' resp =>
        rw [Store.get_set, if_neg hne]
        exact hfree

/-- What a `create` answers with. -/
theorem create_answers {r : Resource B} {progress : Progress} {o : Outcome} {store : Store} {resp : Response}
    (hopen : ∀ resp', progress ≠ .answered resp')
    (h : (handle c (.create r) progress o store).1 = .answered resp) :
    (resp.status = 201 ∧ ∃ found, progress = .read found ∧
      (handle c (.create r) progress o store).2 = store.set r.storageKey (r.toJson c)) ∨
    resp.status = 409 ∨ (resp.status = 400 ∧ ¬ (Record.resource r).Accepted c) ∨
    (resp.status = 503 ∧ o ≠ .ok) := by
  cases progress with
  | answered resp' => exact absurd rfl (hopen resp')
  | read found =>
    simp only [handle, finish] at h ⊢
    cases o with
    | ok =>
      cases h
      exact .inl ⟨rfl, found, rfl, rfl⟩
    | failed applied =>
      cases h
      refine .inr (.inr (.inr ⟨?_, by simp⟩))
      cases r <;> rfl
  | start =>
    simp only [handle, begin, storable] at h ⊢
    split at h
    · next hvalid =>
      cases h
      refine .inr (.inr (.inl ⟨rfl, ?_⟩))
      rw [Record.Accepted, hvalid]
      simp
    · cases o with
      | ok =>
        simp only [getThen] at h
        split_ifs at h with hfound
        cases h
        exact .inr (.inl rfl)
      | failed applied =>
        cases h
        refine .inr (.inr (.inr ⟨?_, by simp⟩))
        cases r <;> rfl

/-- Without a `delete` of it, a key that has a record keeps one. -/
theorem get_run_ne_none {key : String} {mid : List Act} (hsound : Sound c reqs s) (h : s.store.get key ≠ none)
    (hno : ∀ d ∈ mid, (reqs d.1).deletes c ≠ some key) : (run c reqs s mid).store.get key ≠ none := by
  induction mid generalizing s with
  | nil => exact h
  | cons d mid ih =>
    refine ih (hsound.step d) ?_ fun d' hd' => hno d' (List.mem_cons_of_mem _ hd')
    have heffect := hsound.effect d
    change (handle c (reqs d.1) (s.progress d.1) d.2 s.store).2.get key ≠ none
    generalize handle c (reqs d.1) (s.progress d.1) d.2 s.store = next at heffect ⊢
    generalize storesAt c reqs s d = stored at heffect
    cases heffect with
    | stay => exact h
    | answer resp => exact h
    | read r => exact h
    | set r resp =>
      rw [Store.get_set]
      split_ifs
      · simp
      · exact h
    | delete key' resp hdeletes =>
      have hne : key ≠ key' := by
        rintro rfl
        exact hno d (List.mem_cons_self ..) hdeletes
      rw [Store.get_delete, if_neg hne]
      exact h

theorem run_append (s : System) (as bs : List Act) : run c reqs s (as ++ bs) = run c reqs (run c reqs s as) bs :=
  List.foldl_append

/-- A run that disturbs nobody does so from each of its states on. -/
theorem Undisturbed.split {before after : List Act} (h : Undisturbed c reqs s (before ++ after)) :
    Undisturbed c reqs s before ∧ Undisturbed c reqs (run c reqs s before) after := by
  induction before generalizing s with
  | nil => exact ⟨trivial, h⟩
  | cons a before ih =>
    obtain ⟨ha, hrest⟩ := h
    exact ⟨⟨ha, (ih hrest).1⟩, (ih hrest).2⟩

theorem free_run {acts : List Act} (hsound : Sound c reqs s) (h : Free reqs s) (hund : Undisturbed c reqs s acts) :
    Free reqs (run c reqs s acts) := by
  induction acts generalizing s with
  | nil => exact h
  | cons a acts ih => exact ih (hsound.step a) (free_step hsound h hund.1) hund.2

theorem neverReplaces_of_undisturbed {acts : List Act} (hsound : Sound c reqs s) (h : Free reqs s)
    (hund : Undisturbed c reqs s acts) : NeverReplaces c reqs s acts := by
  induction acts generalizing s with
  | nil => trivial
  | cons a acts ih =>
    refine ⟨fun r hreq hstored => ?_, ih (hsound.step a) (free_step hsound h hund.1) hund.2⟩
    refine h a.1 _ ⟨r, ?_⟩
    simp only [storesAt, hreq] at hstored
    cases hprogress : s.progress a.1 with
    | read found => exact ⟨found, hreq, rfl, rfl⟩
    | start => simp [storedKey, beginKey, hprogress] at hstored
    | answered resp => simp [storedKey, hprogress] at hstored

theorem answersOnce_of_undisturbed {acts : List Act} (hsound : Sound c reqs s) (h : Free reqs s)
    (hund : Undisturbed c reqs s acts) : AnswersOnce c reqs s acts := by
  refine ⟨?_, ?_⟩
  · rintro before a mid b after r r' resp resp' rfl hcreate hcreate' hkey ⟨hopen, ha⟩ h201 ⟨hopen', hb⟩ h201'
    by_contra hno
    simp only [not_exists, not_and] at hno
    -- the first `create` has stored, and what it stored is still there
    have hbefore := hsound.run before
    have hstored : (step c reqs (run c reqs s before) a).store.get r.storageKey ≠ none := by
      rw [step_progress_self, hcreate] at ha
      rcases create_answers hopen ha with ⟨-, _, -, hset⟩ | h409 | ⟨h400, -⟩ | ⟨h503, -⟩
      · have hstore : (step c reqs (run c reqs s before) a).store =
            (run c reqs s before).store.set r.storageKey (r.toJson c) := by
          rw [← hset, ← hcreate]
          rfl
        rw [hstore, Store.get_set, if_pos rfl]
        simp
      all_goals omega
    have hlater : (run c reqs s (before ++ a :: mid)).store.get r.storageKey ≠ none := by
      rw [run_append]
      exact get_run_ne_none (s := step c reqs (run c reqs s before) a) (hbefore.step a) hstored hno
    -- but the second one is pending, and its key is free
    have hsplit : Undisturbed c reqs s ((before ++ a :: mid) ++ b :: after) := by simpa using hund
    have hfree := free_run hsound h hsplit.split.1
    rw [step_progress_self, hcreate'] at hb
    rcases create_answers hopen' hb with ⟨-, found, hread, -⟩ | h409 | ⟨h400, -⟩ | ⟨h503, -⟩
    · exact hlater (hkey ▸ hfree b.1 _ ⟨r', found, hcreate', rfl, hread⟩)
    all_goals omega
  · rintro before a after r resp rfl hcreate ⟨hopen, ha⟩ haccepted hok
    rw [step_progress_self, hcreate] at ha
    rcases create_answers hopen ha with ⟨h201, -⟩ | h409 | ⟨-, hnot⟩ | ⟨-, hfailed⟩
    · exact .inl h201
    · exact .inr h409
    · exact absurd haccepted hnot
    · exact absurd hok hfailed

/-! ### Requests that clash -/

/-- Another valid request asks to store a record under the key of a valid `create`. -/
def Clash (c : RecordCrates B) (reqs : ℕ → Request B) : Prop :=
  ∃ i j r r', i ≠ j ∧ reqs i = .create r ∧ (Record.resource r).Accepted c ∧ (reqs j).record c = some r' ∧
    r'.Accepted c ∧ r'.storageKey = r.storageKey

/-- Requests that do not clash disturb nobody, in whatever order they run. -/
theorem undisturbed_of_not_clash (hno : ¬ Clash c reqs) {acts : List Act} (hsound : Sound c reqs s) :
    Undisturbed c reqs s acts := by
  induction acts generalizing s with
  | nil => trivial
  | cons a acts ih =>
    refine ⟨?_, ih (hsound.step a)⟩
    rintro key hstored j hj ⟨r, found, hcreate, rfl, hread⟩
    have haccepted : (Record.resource r).Accepted c := by
      obtain ⟨r', hrecord, haccepted⟩ := hsound j found hread
      rw [hcreate] at hrecord
      cases hrecord
      exact haccepted
    have heffect := hsound.effect a
    rw [hstored] at heffect
    generalize handle c (reqs a.1) (s.progress a.1) a.2 s.store = next at heffect
    generalize hkey : r.storageKey = key at heffect
    cases heffect with
    | set r' resp hrecord haccepted' =>
      exact hno ⟨j, a.1, r, r', hj, hcreate, haccepted, hrecord, haccepted', hkey.symm⟩

/-- Two storage calls are enough for a valid request to store its record under a free key. -/
theorem get_after_two {req : Request B} {r : Record B} {store : Store} (hrecord : req.record c = some r)
    (haccepted : r.Accepted c) (hfree : store.get r.storageKey = none) :
    let first := handle c req .start .ok store
    (handle c req first.1 .ok first.2).2.get r.storageKey ≠ none := by
  have hvalid : r.validate c = .ok () := haccepted
  have hset : (store.set r.storageKey (r.toJson c)).get r.storageKey ≠ none := by
    rw [Store.get_set, if_pos rfl]
    simp
  cases req with
  | create r' =>
    cases hrecord
    simpa [handle, begin, finish, storable, hvalid, getThen, hfree, setThen] using hset
  | put id r' =>
    simp only [Request.record] at hrecord
    split_ifs at hrecord with hid
    cases hrecord
    simpa [handle, begin, finish, storable, hvalid, getThen, hfree, setThen, hid] using hset
  | createKey rawKey session =>
    cases hrecord
    simpa [handle, begin, finish, storable, hvalid, setThen] using hset
  | putKey hashed key session =>
    cases hrecord
    simpa [handle, begin, finish, storable, hvalid, getThen, hfree, setThen] using hset
  | delete kind orgId id => cases hrecord
  | deleteKey hashed orgId key => cases hrecord

/-- A clash can be run so that the `create` replaces what the other request has stored: it reads first and sets last. -/
theorem not_neverReplaces_of_clash {i j : ℕ} {r : Resource B} {r' : Record B} (hij : i ≠ j)
    (hcreate : reqs i = .create r) (haccepted : (Record.resource r).Accepted c) (hrecord : (reqs j).record c = some r')
    (haccepted' : r'.Accepted c) (hkey : r'.storageKey = r.storageKey) :
    ¬ NeverReplaces c reqs (initial []) [(i, .ok), (j, .ok), (j, .ok), (i, .ok)] := by
  rintro ⟨-, -, -, hlast, -⟩
  have hvalid : (Record.resource r).validate c = .ok () := haccepted
  -- the `create` has found nothing
  have hread : (step c reqs (initial []) (i, .ok)) = ⟨[], Function.update (fun _ => .start) i (.read false)⟩ := by
    simp [step, initial, hcreate, handle, begin, storable, hvalid, getThen, Store.get]
  rw [hread] at hlast
  set s₁ : System := ⟨[], Function.update (fun _ => .start) i (.read false)⟩ with hs₁
  have hi : (step c reqs (step c reqs s₁ (j, .ok)) (j, .ok)).progress i = .read false := by
    rw [step_progress_of_ne hij, step_progress_of_ne hij]
    simp [hs₁]
  -- the other request has stored
  have hthere : (step c reqs (step c reqs s₁ (j, .ok)) (j, .ok)).store.get r.storageKey ≠ none := by
    have htwo := get_after_two hrecord haccepted' (show Store.get [] r'.storageKey = none from rfl)
    rw [hkey] at htwo
    simpa [step, hs₁, hij.symm] using htwo
  exact hthere (hlast r hcreate (by simp [storesAt, hcreate, hi, storedKey, finishKey, setKey]; rfl))

/-- **Creating never overwrites**, in whatever order the storage calls of the requests run, exactly if no valid request
asks to store under the key of another's valid `create`. In any case it does not in the runs in which no record is
set under the key of another's pending `create`. -/
theorem create_never_overwrites_iff (c : RecordCrates B) (reqs : ℕ → Request B) :
    ((∀ store acts, NeverReplaces c reqs (initial store) acts ∧ AnswersOnce c reqs (initial store) acts) ↔
      ¬ Clash c reqs) ∧
    ∀ store acts, Undisturbed c reqs (initial store) acts →
      NeverReplaces c reqs (initial store) acts ∧ AnswersOnce c reqs (initial store) acts := by
  have hrun : ∀ store acts, Undisturbed c reqs (initial store) acts →
      NeverReplaces c reqs (initial store) acts ∧ AnswersOnce c reqs (initial store) acts := fun store acts hund =>
    ⟨neverReplaces_of_undisturbed (sound_initial store) (free_initial store) hund,
      answersOnce_of_undisturbed (sound_initial store) (free_initial store) hund⟩
  refine ⟨⟨?_, ?_⟩, hrun⟩
  · rintro h ⟨i, j, r, r', hij, hcreate, haccepted, hrecord, haccepted', hkey⟩
    exact not_neverReplaces_of_clash hij hcreate haccepted hrecord haccepted' hkey (h [] _).1
  · intro hno store acts
    exact hrun store acts (undisturbed_of_not_clash hno (sound_initial store))

/-- The policy `x` of the organization `acme:policy:a`. -/
def nestedPolicy : Policy := { policyId := "x", name := "Free tier", orgId := "acme:policy:a" }

/-- Its record. -/
def nestedRecord : String :=
  "\x7b\"policy_id\":\"x\",\"name\":\"Free tier\",\"org_id\":\"acme:policy:a\",\"active\":true,\"access\":\x7b\x7d\x7d"

/-- Two versions of a policy. -/
def freeTier (i : ℕ) : Policy :=
  { policyId := "free-tier", name := if i = 0 then "Free tier" else "Free tier, revised" }

/-- Policies with their records. -/
def sampleRecords : List (Policy × String) :=
  [(nestedPolicy, nestedRecord),
    (freeTier 0,
      "\x7b\"policy_id\":\"free-tier\",\"name\":\"Free tier\",\"org_id\":\"default\",\"active\":true,\"access\":\x7b\x7d\x7d"),
    (freeTier 1,
      "\x7b\"policy_id\":\"free-tier\",\"name\":\"Free tier, revised\",\"org_id\":\"default\",\"active\":true,\"access\":\x7b\x7d\x7d")]

/-- Crates that write and read these policies. -/
def sampleCrates : RecordCrates Unit where
  crates := ⟨fun _ => .error "invalid uri character", fun _ => .ok (), fun _ => .ok (), fun _ _ _ => .ok false⟩
  apiToJson _ := "null"
  apiFromJson _ := .error "invalid type: null, expected struct ApiDefinition at line 1 column 4"
  policyToJson p := (sampleRecords.lookup p).getD "null"
  policyFromJson record := okOr ((sampleRecords.find? fun r => r.2 = record).map Prod.fst)
    "invalid type: null, expected struct Policy at line 1 column 4"
  sessionToJson _ := "null"
  hashKey key := "no digest of " ++ key

/-- Two `POST`s of one policy id, with different bodies. -/
def doublePost (i : ℕ) : Request Unit := .create (.policy (freeTier i))

/-- Both find the id free, both answer `201`, and the one that sets last replaces what the other has stored. -/
theorem double_post_overwrites :
    (run sampleCrates doublePost (initial []) [(0, .ok), (1, .ok), (1, .ok), (0, .ok)]).progress 0 =
      .answered ⟨201, .action "free-tier" "added"⟩ ∧
    (run sampleCrates doublePost (initial []) [(0, .ok), (1, .ok), (1, .ok), (0, .ok)]).progress 1 =
      .answered ⟨201, .action "free-tier" "added"⟩ ∧
    ¬ NeverReplaces sampleCrates doublePost (initial []) [(0, .ok), (1, .ok), (1, .ok), (0, .ok)] := by
  refine ⟨by decide, by decide, ?_⟩
  exact not_neverReplaces_of_clash (by decide) rfl rfl rfl rfl rfl

/-! ### Readers -/

/-- The `500` of a record that does not parse. -/
def corruptRecord : Response := ⟨500, .error "malformed stored record"⟩

/-- The loop of both readers: scan a prefix, and read each key; one whose record is gone by then is skipped. -/
def readAll {ε R : Type} (store : Store) (keyPrefix : String) (read : String → String → Except ε R) :
    Except ε (List R) :=
  (store.scanPrefix keyPrefix).filterMapM fun key =>
    match store.get key with
    | none => .ok none
    | some record => some <$> read key record

/-- `list`: the records under a prefix, in the order of their ids. -/
def list {R : Type} (fromJson : String → Except String R) (id : R → String) (store : Store) (keyPrefix : String) :
    Except Response (List R) := do
  let resources ← readAll store keyPrefix fun _ record => (fromJson record).mapError fun _ => corruptRecord
  return resources.mergeSort fun a b => id a ≤ id b

/-- `GET /g2/apis`. -/
def listApis (c : RecordCrates B) (store : Store) (orgId : String) : Except Response (List (ApiDefinition B)) :=
  list c.apiFromJson ApiDefinition.apiId store (apiDefinitionKeyPrefix orgId)

/-- `GET /g2/policies`. -/
def listPolicies (c : RecordCrates B) (store : Store) (orgId : String) : Except Response (List Policy) :=
  list c.policyFromJson Policy.policyId store (policyKeyPrefix orgId)

/-- `DefinitionLoadError::Record`. -/
structure DefinitionLoadError where
  key : String
  reason : String
  deriving DecidableEq, Repr

/-- One record of `load_api_definitions`: it must parse, be valid, and "live under exactly the key its own
`org_id`/`api_id` map to". -/
def loadRecord (c : RecordCrates B) (key record : String) : Except DefinitionLoadError (ApiDefinition B) := do
  let d ← (c.apiFromJson record).mapError fun e => ⟨key, e⟩
  (d.validate c.crates).mapError fun e => ⟨key, s!"invalid API definition `{e.api}`: {e.reason}"⟩
  ensure (apiDefinitionStorageKey d.orgId d.apiId = key)
    ⟨key, s!"record's org_id `{d.orgId}` / api_id `{d.apiId}` do not match its storage key"⟩
  return d

/-- `load_api_definitions`. -/
def loadApiDefinitions (c : RecordCrates B) (store : Store) (orgId : String) :
    Except DefinitionLoadError (List (ApiDefinition B)) := do
  let defs ← readAll store (apiDefinitionKeyPrefix orgId) (loadRecord c)
  return defs.mergeSort fun a b => a.apiId ≤ b.apiId

theorem mem_readAll {ε R : Type} {store : Store} {keyPrefix : String} {read : String → String → Except ε R}
    {found : List R} (h : readAll store keyPrefix read = .ok found) {r : R} (hr : r ∈ found) :
    ∃ key record, List.IsPrefix keyPrefix.toList key.toList ∧ store.get key = some record ∧
      read key record = .ok r := by
  obtain ⟨key, hkey, hread⟩ := mem_filterMapM h hr
  refine ⟨key, ?_⟩
  cases hget : store.get key with
  | none => simp [hget] at hread
  | some record =>
    simp only [hget, map_eq_ok] at hread
    obtain ⟨r', hr', heq⟩ := hread
    cases heq
    exact ⟨record, List.isPrefixOf_iff_prefix.mp (List.mem_filter.mp hkey).2, rfl, hr'⟩

/-- What is listed is read from a record under the prefix. -/
theorem mem_list {R : Type} {fromJson : String → Except String R} {id : R → String} {store : Store}
    {keyPrefix : String} {resources : List R} (h : list fromJson id store keyPrefix = .ok resources) {r : R}
    (hr : r ∈ resources) :
    ∃ key record, List.IsPrefix keyPrefix.toList key.toList ∧ store.get key = some record ∧ fromJson record = .ok r := by
  simp only [list, bind_eq_ok, pure_eq_ok] at h
  obtain ⟨found, hfound, rfl⟩ := h
  obtain ⟨key, record, hunder, hget, hread⟩ := mem_readAll hfound ((List.mergeSort_perm _ _).mem_iff.mp hr)
  exact ⟨key, record, hunder, hget, mapError_eq_ok.mp hread⟩

/-- What is loaded is read from a record under the organization's prefix. -/
theorem mem_load {store : Store} {orgId : String} {defs : List (ApiDefinition B)}
    (h : loadApiDefinitions c store orgId = .ok defs) {d : ApiDefinition B} (hd : d ∈ defs) :
    ∃ key record, List.IsPrefix (apiDefinitionKeyPrefix orgId).toList key.toList ∧ store.get key = some record ∧
      c.apiFromJson record = .ok d := by
  simp only [loadApiDefinitions, bind_eq_ok, pure_eq_ok] at h
  obtain ⟨found, hfound, rfl⟩ := h
  obtain ⟨key, record, hunder, hget, hread⟩ := mem_readAll hfound ((List.mergeSort_perm _ _).mem_iff.mp hd)
  simp only [loadRecord, bind_eq_ok, mapError_eq_ok, ensure_eq_ok, pure_eq_ok] at hread
  obtain ⟨_, hparse, _, -, -, -, rfl⟩ := hread
  exact ⟨key, record, hunder, hget, hparse⟩

/-! ### Organizations -/

/-- Each record of the store is a valid one of an organization of `O`, under its own key. -/
def Written (c : RecordCrates B) (O : Set String) (store : Store) : Prop :=
  ∀ key record, store.get key = some record →
    ∃ r : Record B, r.Accepted c ∧ r.orgId ∈ O ∧ key = r.storageKey ∧ record = r.toJson c

/-- The handlers write nothing else. -/
theorem written_step {O : Set String} (hreqs : ∀ i r, (reqs i).record c = some r → r.orgId ∈ O)
    (hsound : Sound c reqs s) (h : Written c O s.store) (a : Act) : Written c O (step c reqs s a).store := by
  have heffect := hsound.effect a
  change Written c O (handle c (reqs a.1) (s.progress a.1) a.2 s.store).2
  generalize handle c (reqs a.1) (s.progress a.1) a.2 s.store = next at heffect ⊢
  generalize storesAt c reqs s a = stored at heffect
  cases heffect with
  | stay => exact h
  | answer resp => exact h
  | read r => exact h
  | set r resp hrecord haccepted =>
    intro key record hget
    rw [Store.get_set] at hget
    split_ifs at hget with hkey
    · cases hget
      exact ⟨r, haccepted, hreqs a.1 r hrecord, hkey, rfl⟩
    · exact h key record hget
  | delete key' resp =>
    intro key record hget
    rw [Store.get_delete] at hget
    split_ifs at hget
    exact h key record hget

theorem written_run {O : Set String} (hreqs : ∀ i r, (reqs i).record c = some r → r.orgId ∈ O) (acts : List Act) :
    ∀ {s : System}, Sound c reqs s → Written c O s.store → Written c O (run c reqs s acts).store := by
  induction acts with
  | nil => exact fun _ h => h
  | cons a acts ih => exact fun hsound h => ih (hsound.step a) (written_step hreqs hsound h a)

/-- The organizations of `O` are isolated: records of different kinds, organizations or ids have different keys, the
prefix of a kind and an organization covers only their keys, and after every run of the handlers on behalf of these
organizations each reader returns only records of the organization it is asked for. -/
structure Isolated (c : RecordCrates B) (O : Set String) : Prop where
  keys : ∀ r r' : Record B, r.Accepted c → r'.Accepted c → r.orgId ∈ O → r'.orgId ∈ O →
    r.storageKey = r'.storageKey → r.kind = r'.kind ∧ r.orgId = r'.orgId ∧ r.id = r'.id
  scans : ∀ k, ∀ o ∈ O, ∀ r : Record B, r.Accepted c → r.orgId ∈ O →
    List.IsPrefix (k.keyPrefix o).toList r.storageKey.toList → r.kind = k ∧ r.orgId = o
  loads : ∀ reqs acts, (∀ i r, (reqs i).record c = some r → r.orgId ∈ O) → ∀ o ∈ O, ∀ defs,
    loadApiDefinitions c (run c reqs (initial []) acts).store o = .ok defs → ∀ d ∈ defs, d.orgId = o
  listsApis : ∀ reqs acts, (∀ i r, (reqs i).record c = some r → r.orgId ∈ O) → ∀ o ∈ O, ∀ defs,
    listApis c (run c reqs (initial []) acts).store o = .ok defs → ∀ d ∈ defs, d.orgId = o
  listsPolicies : ∀ reqs acts, (∀ i r, (reqs i).record c = some r → r.orgId ∈ O) → ∀ o ∈ O, ∀ policies,
    listPolicies c (run c reqs (initial []) acts).store o = .ok policies → ∀ p ∈ policies, p.orgId = o

section Isolation

variable {O : Set String} (hclear : ∀ o ∈ O, ∀ o' ∈ O, ∀ k, ¬ Nested k o o')

include hclear

/-- A prefix covers only keys of its own kind and organization, unless organizations are nested. -/
theorem scan_of_clear {k : Kind} {o : String} (ho : o ∈ O) {r : Record B} (hr : r.orgId ∈ O)
    (h : List.IsPrefix (k.keyPrefix o).toList r.storageKey.toList) : r.kind = k ∧ r.orgId = o := by
  rcases prefix_of_key h with ⟨hk, ho'⟩ | hnested | hnested
  · exact ⟨hk.symm, ho'.symm⟩
  · exact absurd hnested (hclear o ho _ hr k)
  · exact absurd hnested (hclear _ hr o ho _)

theorem keys_of_clear {r r' : Record B} (hr : r.orgId ∈ O) (hr' : r'.orgId ∈ O) (h : r.storageKey = r'.storageKey) :
    r.kind = r'.kind ∧ r.orgId = r'.orgId ∧ r.id = r'.id := by
  have hunder : List.IsPrefix (r.kind.keyPrefix r.orgId).toList r'.storageKey.toList :=
    ⟨r.id.toList, by rw [← h, Record.storageKey, Kind.storageKey, String.toList_append]⟩
  obtain ⟨hkind, horg⟩ := scan_of_clear hclear hr hr' hunder
  refine ⟨hkind.symm, horg.symm, ?_⟩
  rw [Record.storageKey, Record.storageKey, hkind, horg] at h
  exact id_eq_of_storageKey h

/-- A record of the store under the prefix of a resource kind is a resource of that kind and organization. -/
theorem resource_of_clear {store : Store} (hwritten : Written c O store) {k : Kind} {o : String} (ho : o ∈ O)
    {key record : String} (hunder : List.IsPrefix (k.keyPrefix o).toList key.toList)
    (hget : store.get key = some record) : ∃ r : Record B, r.kind = k ∧ r.orgId = o ∧ record = r.toJson c := by
  obtain ⟨r, -, hr, rfl, rfl⟩ := hwritten key record hget
  obtain ⟨hkind, horg⟩ := scan_of_clear hclear ho hr hunder
  exact ⟨r, hkind, horg, rfl⟩

theorem api_org_of_clear (hread : ∀ d d', c.apiFromJson (c.apiToJson d) = .ok d' → d'.orgId = d.orgId) {store : Store}
    (hwritten : Written c O store) {o : String} (ho : o ∈ O) {key record : String}
    (hunder : List.IsPrefix (apiDefinitionKeyPrefix o).toList key.toList) (hget : store.get key = some record)
    {d : ApiDefinition B} (hparse : c.apiFromJson record = .ok d) : d.orgId = o := by
  obtain ⟨r, hkind, rfl, rfl⟩ := resource_of_clear hclear hwritten ho hunder hget
  rcases r with (d' | p') | ⟨_, _⟩
  · exact hread d' d hparse
  · cases hkind
  · cases hkind

theorem policy_org_of_clear (hread : ∀ p p', c.policyFromJson (c.policyToJson p) = .ok p' → p'.orgId = p.orgId)
    {store : Store} (hwritten : Written c O store) {o : String} (ho : o ∈ O) {key record : String}
    (hunder : List.IsPrefix (policyKeyPrefix o).toList key.toList) (hget : store.get key = some record)
    {p : Policy} (hparse : c.policyFromJson record = .ok p) : p.orgId = o := by
  rw [policyKeyPrefix_eq] at hunder
  obtain ⟨r, hkind, rfl, rfl⟩ := resource_of_clear hclear hwritten ho hunder hget
  rcases r with (d' | p') | ⟨_, _⟩
  · cases hkind
  · exact hread p' p hparse
  · cases hkind

end Isolation

/-- A policy with nothing but its names is valid, if its organization is not blank. -/
theorem accepted_plain {o : String} (ho : Text.trim o ≠ "") (c : RecordCrates B) :
    (Record.resource (.policy { policyId := "x", name := "x", orgId := o })).Accepted c := by
  have hx : Text.trim "x" ≠ "" := by decide
  simp [Record.Accepted, Record.validate, Resource.validate, Policy.validate, validateAllowance, ifSome, ensure, hx, ho]

/-- **Isolation of organizations**: organizations are isolated exactly if none of them lies inside the keys of
another. -/
theorem resources_isolated_iff (c : RecordCrates B)
    (hapi : ∀ d d', c.apiFromJson (c.apiToJson d) = .ok d' → d'.orgId = d.orgId)
    (hpolicy : ∀ p p', c.policyFromJson (c.policyToJson p) = .ok p' → p'.orgId = p.orgId) (O : Set String) :
    Isolated c O ↔ ∀ o ∈ O, ∀ o' ∈ O, ∀ k, ¬ Nested k o o' := by
  constructor
  · intro h o ho o' ho' k hnested
    have hscan := h.scans k o ho _ (accepted_plain hnested.trim_ne c) ho' (hnested.prefix_key _ _)
    have horg : o' = o := hscan.2
    exact not_nested_self k o (horg ▸ hnested)
  · intro hclear
    have hwritten : ∀ (reqs : ℕ → Request B) acts, (∀ i r, (reqs i).record c = some r → r.orgId ∈ O) →
        Written c O (run c reqs (initial []) acts).store := fun reqs acts hreqs =>
      written_run hreqs acts (sound_initial []) fun key record hget => by cases hget
    refine ⟨fun r r' _ _ hr hr' h => keys_of_clear hclear hr hr' h,
      fun k o ho r _ hr h => scan_of_clear hclear ho hr h, ?_, ?_, ?_⟩
    · intro reqs acts hreqs o ho defs hload d hd
      obtain ⟨key, record, hunder, hget, hparse⟩ := mem_load hload hd
      exact api_org_of_clear hclear hapi (hwritten reqs acts hreqs) ho hunder hget hparse
    · intro reqs acts hreqs o ho defs hlist d hd
      obtain ⟨key, record, hunder, hget, hparse⟩ := mem_list hlist hd
      exact api_org_of_clear hclear hapi (hwritten reqs acts hreqs) ho hunder hget hparse
    · intro reqs acts hreqs o ho policies hlist p hp
      obtain ⟨key, record, hunder, hget, hparse⟩ := mem_list hlist hp
      exact policy_org_of_clear hclear hpolicy (hwritten reqs acts hreqs) ho hunder hget hparse

/-- The policy `x` of `acme:policy:a` and the policy `a:policy:x` of `acme` are both valid and have one key, and the
list of the policies of `acme` has the policy of the other organization. -/
theorem policies_share_key :
    (Record.resource (B := Unit) (.policy nestedPolicy)).Accepted sampleCrates ∧
    (Record.resource (B := Unit) (.policy { policyId := "a:policy:x", name := "Free tier", orgId := "acme" })).Accepted
      sampleCrates ∧
    policyStorageKey "acme:policy:a" "x" = policyStorageKey "acme" "a:policy:x" ∧
    listPolicies sampleCrates (run sampleCrates (fun _ => .create (.policy nestedPolicy)) (initial [])
      [(0, .ok), (0, .ok)]).store "acme" = .ok [nestedPolicy] ∧
    nestedPolicy.orgId ≠ "acme" := by
  have hstore : (run sampleCrates (fun _ => .create (.policy nestedPolicy)) (initial []) [(0, .ok), (0, .ok)]).store =
      [(policyStorageKey "acme:policy:a" "x", nestedRecord)] := rfl
  have hscan : Store.scanPrefix [(policyStorageKey "acme:policy:a" "x", nestedRecord)] (policyKeyPrefix "acme") =
      [policyStorageKey "acme:policy:a" "x"] := by decide
  have hget : Store.get [(policyStorageKey "acme:policy:a" "x", nestedRecord)] (policyStorageKey "acme:policy:a" "x") =
      some nestedRecord := List.lookup_cons_self
  have hread : sampleCrates.policyFromJson nestedRecord = .ok nestedPolicy := rfl
  refine ⟨rfl, rfl, by decide, ?_, by decide⟩
  rw [hstore]
  simp only [listPolicies, list, readAll, hscan, List.filterMapM_cons, List.filterMapM_nil, hget, hread]
  simp [bind, Except.bind, pure, Except.pure, Functor.map, Except.map, Except.mapError]

/-- `acme` and `globex` are isolated, `acme` and `acme:policy:a` are not. -/
theorem resources_isolated_iff_acme :
    Isolated sampleCrates {"acme", "globex"} ∧ ¬ Isolated sampleCrates {"acme", "acme:policy:a"} := by
  have hapi : ∀ d d', sampleCrates.apiFromJson (sampleCrates.apiToJson d) = .ok d' → d'.orgId = d.orgId := by
    intro d d' h
    cases h
  have hdistinct : (sampleRecords.map Prod.snd).Nodup := by decide +kernel
  have hpolicy : ∀ p p', sampleCrates.policyFromJson (sampleCrates.policyToJson p) = .ok p' → p'.orgId = p.orgId := by
    intro p p' h
    obtain ⟨r, hr, rfl⟩ := Option.map_eq_some_iff.1 (okOr_eq_ok.1 h)
    have hrecord : r.2 = sampleCrates.policyToJson p := by simpa using List.find?_some hr
    change r.2 = (sampleRecords.lookup p).getD "null" at hrecord
    have hmem := List.mem_of_find?_eq_some hr
    cases hp : sampleRecords.lookup p with
    | none =>
      have hwritten : ∀ r ∈ sampleRecords, r.2 ≠ "null" := by decide +kernel
      rw [hp, Option.getD_none] at hrecord
      exact absurd hrecord (hwritten r hmem)
    | some record =>
      rw [hp, Option.getD_some] at hrecord
      exact congrArg (fun r => r.1.orgId)
        (List.inj_on_of_nodup_map hdistinct hmem (Assoc.mem_of_lookup hp) hrecord)
  refine ⟨(resources_isolated_iff sampleCrates hapi hpolicy _).mpr ?_, fun h => ?_⟩
  · rintro o (rfl | rfl) o' (rfl | rfl) k <;> cases k <;> decide
  · exact (resources_isolated_iff sampleCrates hapi hpolicy _).mp h "acme" (.inl rfl) "acme:policy:a" (.inr rfl) .policy (by decide)

end G2way.Admin
