import G2way.GraphQl.Policed
import G2way.GraphQl.SchemaState

/-!
# Schema sync

Syncs and requests at the same time. `apply_introspection` "swaps the layer's schema
state" behind an `ArcSwap`, and `GraphQl::call` takes the state at its start: "One load
per request; the full `Arc` (not a guard) because it is held across `.await`s".

## The model

An attempt to sync loads the active state once and stores once, so it is two actions,
between which other attempts and requests go on. A request stops at each of its
`.await`s: before it is first polled, for its body, for the cache's answer, for the
response. Until it ends it has the state it loaded, and the documents of persisted
endpoints are indexed in it, which panics out of bounds. A run is any list of actions;
one that is not possible where it stands does nothing.

## What is proved

`schema_sync_all_or_nothing`: in every run from what `from_config` makes, every state
that was active is coherent, the swaps are those of the attempts that returned
`Ok(true)`, and each request that has loaded a state keeps it and is validated,
policed, keyed and executed against it: what it ends with is what `call` answers in
that one state.
-/

namespace G2way.GraphQl

open G2way.Core G2way.Lib G2way.Lib.Result G2way.Middleware

variable {Num Sch : Type}

/-! ### The layer at a state -/

/-- An endpoint with a document. -/
def CompiledPersisted.withDoc (p : CompiledPersisted Num) (doc : ValidDocument) : Persisted Num :=
  ⟨p.method, p.captures, p.query, p.operationName, p.vars, doc⟩

/-- The layer's state, when the active schema state is `s` and the cache answers `hit`. -/
def Shared.layer (c : SchemaCrates Num Sch) (shared : Shared Num) (s : SchemaState Sch) (hit : Option String) :
    LayerState Num where
  toGraphQlShared := shared.toGraphQlShared
  apiId := shared.apiId
  playground := shared.playground
  persisted := List.zipWith CompiledPersisted.withDoc shared.persisted s.persistedDocs
  graphqlUri := shared.graphqlUri
  maxBodyBytes := shared.maxBodyBytes
  subscriptionsEnabled := shared.subscriptionsEnabled
  executes := shared.executes
  cache := shared.cachePrefix.map fun keyPrefix => ⟨keyPrefix, c.hashKey, fun _ => hit⟩
  parseAndValidate := c.validate s.schema
  sdlHash := s.sdlHash

/-! ### A request -/

/-- An operation that passed the gates. -/
structure Passed (Num : Type) where
  query : String
  operationName : Option String
  doc : ValidDocument
  /-- The variables in the cache key. -/
  varsText : String
  key : Option String
  /-- The variables it is executed with, or the answer that they are no object. -/
  vars : Except Answer (List (String × Json Num))
  /-- The request it is forwarded as. -/
  forwarded : Forwarded

/-- How a request ends. -/
inductive Outcome (Num Sch : Type) where
  /-- With an answer before or at the gates. -/
  | answered (answer : Answer)
  /-- As a tunnel. -/
  | tunnelled (forwarded : Forwarded)
  /-- From the cache. -/
  | cached (passed : Passed Num) (entry : String)
  /-- Not executed, for its variables. -/
  | refused (passed : Passed Num) (answer : Answer)
  /-- By the inner service. -/
  | forwarded (passed : Passed Num)
  /-- Executed against that state. -/
  | executed (at_ : SchemaState Sch) (passed : Passed Num)
  /-- The index was out of bounds. -/
  | panicked

/-- Where a request is, with the state it loaded. -/
inductive Progress (Num Sch : Type) where
  /-- Not polled yet. -/
  | called
  /-- At `extract_query`. -/
  | extracting (s : SchemaState Sch)
  /-- At the cache's `lookup`. -/
  | looking (s : SchemaState Sch) (passed : Passed Num)
  /-- After it. -/
  | serving (s : SchemaState Sch) (passed : Passed Num)
  /-- Inside `execute`. -/
  | executing (s : SchemaState Sch) (passed : Passed Num)
  | ended (s : SchemaState Sch) (outcome : Outcome Num Sch)

/-- The object of the variables; anything else is the empty one. -/
def objectOf : Option (Json Num) → List (String × Json Num)
  | some (.object members) => members
  | _ => []

/-- `parse_raw_variables`, of a value. -/
def objectOrRefuse : Json Num → Except Answer (List (String × Json Num))
  | .null => .ok []
  | .object members => .ok members
  | _ => .error (.graphqlErrors 400 ["`variables` must be a JSON object"])

/-- `parse_raw_variables`. -/
def parseRawVariables (c : SchemaCrates Num Sch) : Option RawVariables → Except Answer (List (String × Json Num))
  | none => .ok []
  | some (.parsed value) => objectOrRefuse ((value.canonical c.serde.number).getD .null)
  | some (.text text) => do
    let value ← okOr (fromStr c.serde text)
      (.graphqlErrors 400 ["`variables` is not valid JSON: " ++ c.describeText text])
    objectOrRefuse value

section Request

variable (c : SchemaCrates Num Sch) (shared : Shared Num) (s : SchemaState Sch) (req : Request)

/-- The first endpoint that matches, with its index and what its path captured. -/
def findPersisted : Option (ℕ × CompiledPersisted Num × List (String × String)) :=
  shared.persisted.zipIdx.findSome? fun (p, index) =>
    if p.method = req.method then (p.captures req.path).map fun caps => (index, p, caps) else none

/-- A persisted endpoint, up to the cache. -/
def passPersisted (p : Persisted Num) (caps : List (String × String)) : Progress Num Sch :=
  let st := shared.layer c s none
  match enforce st.toGraphQlShared (grantsOf st req) p.doc.toDocument with
  | .error answer => .ended s (.answered answer)
  | .ok () =>
    let vars := persistedVariables p caps req
    let varsText := canonicalJsonVariables c.serde vars
    .looking s
      { query := p.query
        operationName := p.operationName
        doc := p.doc
        varsText
        key := cacheKey st p.doc.toDocument p.operationName p.query varsText
        vars := .ok (objectOf vars)
        forwarded := ⟨.persisted, rewritePersisted c.serde st p vars req⟩ }

/-- From the load of `s` to the first `.await`. -/
def load : Progress Num Sch :=
  if req.method = "GET" ∧ shared.playground = some req.path then .ended s (.answered .playground)
  else if isWebsocketHandshake req then
    match callHandshake (shared.layer c s none) req with
    | .error answer => .ended s (.answered answer)
    | .ok forwarded => .ended s (.tunnelled forwarded)
  else
    match findPersisted shared req with
    | none => .extracting s
    | some (index, p, caps) =>
      match s.persistedDocs[index]? with
      | none => .ended s .panicked
      | some doc => passPersisted c shared s req (p.withDoc doc) caps

/-- A plain request, up to the cache. -/
def extract : Progress Num Sch :=
  let st := shared.layer c s none
  match police c.serde st req with
  | .error answer => .ended s (.answered answer)
  | .ok (extracted, doc) =>
    let varsText := canonicalVariables c.serde extracted.vars
    .looking s
      { query := extracted.query
        operationName := extracted.operationName
        doc
        varsText
        key := cacheKey st doc.toDocument extracted.operationName extracted.query varsText
        vars := parseRawVariables c extracted.vars
        forwarded := ⟨.plain extracted.query, extracted.req⟩ }

/-- The cache answers. -/
def look (hit : Option String) (passed : Passed Num) : Progress Num Sch :=
  match shared.cachePrefix, passed.key, hit with
  | some _, some _, some entry => .ended s (.cached passed entry)
  | _, _, _ => .serving s passed

/-- The engine or the inner service is called. -/
def serve (passed : Passed Num) : Progress Num Sch :=
  if shared.executes then
    match passed.vars with
    | .error answer => .ended s (.refused passed answer)
    | .ok _ => .executing s passed
  else .ended s (.forwarded passed)

end Request

/-- A request that came in. -/
structure Process (Num Sch : Type) where
  req : Request
  progress : Progress Num Sch := .called
  /-- What the cache answered. -/
  hit : Option String := none

/-- The request goes on; where it loads, `active` is the active state, and where it asks the cache,
`hit` is the answer. -/
def Process.advance (c : SchemaCrates Num Sch) (shared : Shared Num) (active : SchemaState Sch)
    (hit : Option String) (p : Process Num Sch) : Process Num Sch :=
  match p.progress with
  | .called => { p with progress := load c shared active p.req }
  | .extracting s => { p with progress := extract c shared s p.req }
  | .looking s passed => { p with progress := look shared s hit passed, hit }
  | .serving s passed => { p with progress := serve shared s passed }
  | .executing s passed => { p with progress := .ended s (.executed s passed) }
  | .ended _ _ => p

/-! ### The system -/

/-- Where an attempt to sync is. -/
inductive AttemptPhase (Sch : Type) where
  /-- Before the store. -/
  | ready (new : SchemaState Sch)
  /-- `apply_introspection` returned. -/
  | returned (result : Except String Bool)

/-- A call of `apply_introspection`. -/
structure Attempt (Num Sch : Type) where
  response : Json Num
  phase : AttemptPhase Sch

/-- The status of the sync. -/
structure SyncStatus where
  /-- Unix seconds; 0 is never. -/
  lastSuccessSecs : ℕ := 0
  lastError : Option String := none
  deriving DecidableEq, Repr

/-- The layer, the attempts to sync and the requests. -/
structure System (Num Sch : Type) where
  active : SchemaState Sch
  status : SyncStatus := {}
  attempts : ℕ → Option (Attempt Num Sch) := fun _ => none
  requests : ℕ → Option (Process Num Sch) := fun _ => none
  /-- The states stored so far, each with the attempt that stored it, the latest first. -/
  swaps : List (ℕ × SchemaState Sch) := []

/-- An action. -/
inductive SyncAct (Num : Type) where
  /-- `apply_introspection`, up to the store. -/
  | apply (i : ℕ) (response : Json Num) (now : ℕ)
  /-- The store, and the rest of it. -/
  | store (i : ℕ) (now : ℕ)
  /-- The caller records an error. -/
  | recordError (error : String)
  /-- A request comes in. -/
  | call (i : ℕ) (req : Request)
  /-- It goes on; the cache answers `hit`, if it is asked. -/
  | advance (i : ℕ) (hit : Option String)

namespace System

variable (c : SchemaCrates Num Sch) (shared : Shared Num) (sys : System Num Sch)

/-- `apply_introspection`, up to the store. -/
def apply (i : ℕ) (response : Json Num) (now : ℕ) : System Num Sch :=
  match applyIntrospection c shared sys.active response with
  | .error e => { sys with attempts := Function.update sys.attempts i (some ⟨response, .returned (.error e)⟩) }
  | .ok none =>
    { sys with
      status := ⟨now, none⟩
      attempts := Function.update sys.attempts i (some ⟨response, .returned (.ok false)⟩) }
  | .ok (some new) => { sys with attempts := Function.update sys.attempts i (some ⟨response, .ready new⟩) }

/-- `state.store`, and `record_success`. -/
def store (i : ℕ) (response : Json Num) (new : SchemaState Sch) (now : ℕ) : System Num Sch :=
  { sys with
    active := new
    swaps := (i, new) :: sys.swaps
    status := ⟨now, none⟩
    attempts := Function.update sys.attempts i (some ⟨response, .returned (.ok true)⟩) }

/-- One action. -/
def step : SyncAct Num → System Num Sch
  | .apply i response now =>
    if shared.sync ∧ (sys.attempts i).isNone then sys.apply c shared i response now else sys
  | .store i now =>
    match sys.attempts i with
    | some ⟨response, .ready new⟩ => sys.store i response new now
    | _ => sys
  | .recordError error => { sys with status := { sys.status with lastError := some error } }
  | .call i req =>
    if (sys.requests i).isNone then { sys with requests := Function.update sys.requests i (some { req }) } else sys
  | .advance i hit =>
    match sys.requests i with
    | some p => { sys with requests := Function.update sys.requests i (some (p.advance c shared sys.active hit)) }
    | none => sys

/-- A run. -/
def run (acts : List (SyncAct Num)) : System Num Sch := acts.foldl (step c shared) sys

/-- The states that were active so far, the latest first. -/
def states (initial : SchemaState Sch) : List (SchemaState Sch) := sys.swaps.map Prod.snd ++ [initial]

end System

/-! ### One state for a request -/

/-- The state a request has loaded. -/
def Progress.state : Progress Num Sch → Option (SchemaState Sch)
  | .called => none
  | .extracting s => some s
  | .looking s _ => some s
  | .serving s _ => some s
  | .executing s _ => some s
  | .ended s _ => some s

/-- The operation of a request that ended after the gates. -/
def Outcome.passed : Outcome Num Sch → Option (Passed Num)
  | .cached passed _ => some passed
  | .refused passed _ => some passed
  | .forwarded passed => some passed
  | .executed _ passed => some passed
  | _ => none

/-- The operation of a request that is past the gates. -/
def Progress.passed : Progress Num Sch → Option (Passed Num)
  | .looking _ passed => some passed
  | .serving _ passed => some passed
  | .executing _ passed => some passed
  | .ended _ outcome => outcome.passed
  | _ => none

/-- What the layer's `call` is to say of an outcome; of a panic it says nothing. -/
def Outcome.result : Outcome Num Sch → Option (Except Answer Forwarded)
  | .answered answer => some (.error answer)
  | .tunnelled f => some (.ok f)
  | .cached _ entry => some (.error (.cached entry))
  | .refused _ _ => some (.error .executed)
  | .forwarded passed => some (.ok passed.forwarded)
  | .executed _ _ => some (.error .executed)
  | .panicked => none

/-- The operation was validated, policed and keyed against that state. -/
structure Passed.Against (c : SchemaCrates Num Sch) (shared : Shared Num) (req : Request) (s : SchemaState Sch)
    (passed : Passed Num) : Prop where
  validated : c.validate s.schema passed.query = .ok passed.doc
  policed : enforce shared.toGraphQlShared (grantsOf (shared.layer c s none) req) passed.doc.toDocument = .ok ()
  keyed : passed.key = cacheKey (shared.layer c s none) passed.doc.toDocument passed.operationName passed.query
    passed.varsText

/-- A request that has loaded `s` does everything with `s`, and ends as `call` does in that state. -/
structure Process.Single (c : SchemaCrates Num Sch) (shared : Shared Num) (s : SchemaState Sch)
    (p : Process Num Sch) : Prop where
  against : ∀ passed, p.progress.passed = some passed → passed.Against c shared p.req s
  executed : ∀ t at_ passed, p.progress = .ended t (.executed at_ passed) → at_ = s
  answered : ∀ t outcome, p.progress = .ended t outcome →
    outcome.result = some (call c.serde (shared.layer c s p.hit) p.req)

section Single

variable {c : SchemaCrates Num Sch} {shared : Shared Num} {s : SchemaState Sch} {req : Request}

/-- What `call` does past the gates. -/
def afterGates (st : LayerState Num) (passed : Passed Num) : Except Answer Forwarded := do
  lookupCache st passed.key
  ensure (!st.executes) .executed
  return passed.forwarded

/-- What is left of `call` at each point of a request. -/
def Process.Sound (c : SchemaCrates Num Sch) (shared : Shared Num) (p : Process Num Sch) : Prop :=
  match p.progress with
  | .called => True
  | .extracting s =>
    ∀ hit, call c.serde (shared.layer c s hit) p.req = callPlain c.serde (shared.layer c s hit) p.req
  | .looking s passed => passed.Against c shared p.req s ∧
      ∀ hit, call c.serde (shared.layer c s hit) p.req = afterGates (shared.layer c s hit) passed
  | .serving s passed => passed.Against c shared p.req s ∧
      call c.serde (shared.layer c s p.hit) p.req = (do ensure (!shared.executes) .executed; return passed.forwarded)
  | .executing s passed => passed.Against c shared p.req s ∧
      call c.serde (shared.layer c s p.hit) p.req = .error .executed
  | .ended s outcome => (∀ passed, outcome.passed = some passed → passed.Against c shared p.req s) ∧
      (∀ at_ passed, outcome = .executed at_ passed → at_ = s) ∧
      outcome.result = some (call c.serde (shared.layer c s p.hit) p.req)

/-- The key of an operation does not depend on what the cache answers. -/
theorem cacheKey_layer (hit : Option String) (doc : Document) (operationName : Option String) (query varsText : String) :
    cacheKey (shared.layer c s hit) doc operationName query varsText =
      cacheKey (shared.layer c s none) doc operationName query varsText := by
  simp only [cacheKey, Shared.layer, Option.map_map]
  rfl

/-- Searching the endpoints with their documents is searching the endpoints, and indexing. -/
theorem findSome?_zipWith_withDoc (req : Request) (docs : List ValidDocument)
    (persisted : List (CompiledPersisted Num)) (k : ℕ) (h : k + persisted.length = docs.length) :
    ((List.zipWith CompiledPersisted.withDoc persisted (docs.drop k)).findSome? fun p =>
      if p.method = req.method then (p.captures req.path).map fun caps => (p, caps) else none) =
    (((persisted.zipIdx k).findSome? fun x =>
      if x.1.method = req.method then (x.1.captures req.path).map fun caps => (x.2, x.1, caps) else none).bind
        fun r => docs[r.1]?.map fun doc => (r.2.1.withDoc doc, r.2.2)) := by
  induction persisted generalizing k with
  | nil => rfl
  | cons p persisted ih =>
    have hk : k < docs.length := by
      rw [← h, List.length_cons]
      omega
    have htail := ih (k + 1) (by rw [← h, List.length_cons]; omega)
    rw [List.drop_eq_getElem_cons hk, List.zipWith_cons_cons, List.zipIdx_cons, List.findSome?_cons,
      List.findSome?_cons]
    simp only [CompiledPersisted.withDoc] at htail ⊢
    by_cases hmethod : p.method = req.method
    · cases hcaps : p.captures req.path with
      | none => simpa [hmethod, hcaps] using htail
      | some caps => simp [hmethod, List.getElem?_eq_getElem hk]
    · simpa [hmethod] using htail

/-- In a coherent state, the layer's search is the loop over the endpoints. -/
theorem matchPersisted_layer (hs : s.Coherent c shared.persisted) (hit : Option String) :
    matchPersisted (shared.layer c s hit) req =
      (findPersisted shared req).bind fun r => s.persistedDocs[r.1]?.map fun doc => (r.2.1.withDoc doc, r.2.2) := by
  have hlength : 0 + shared.persisted.length = s.persistedDocs.length := by rw [Nat.zero_add, hs.length_eq]
  have h := findSome?_zipWith_withDoc req s.persistedDocs shared.persisted 0 hlength
  rw [List.drop_zero] at h
  exact h

/-- In a coherent state the index is in bounds, and the document is the endpoint's. -/
theorem validate_of_findPersisted (hs : s.Coherent c shared.persisted) {index : ℕ} {p : CompiledPersisted Num}
    {caps : List (String × String)} (h : findPersisted shared req = some (index, p, caps)) :
    ∃ doc, s.persistedDocs[index]? = some doc ∧ c.validate s.schema p.query = .ok doc := by
  obtain ⟨⟨p', index'⟩, hmem, hfound⟩ := List.exists_of_findSome?_eq_some h
  rw [List.mem_zipIdx_iff_getElem?] at hmem
  dsimp only at hmem hfound
  split at hfound
  · rw [Option.map_eq_some_iff] at hfound
    obtain ⟨_, _, heq⟩ := hfound
    cases heq
    obtain ⟨hindex, hp⟩ := List.getElem?_eq_some_iff.1 hmem
    have hdoc : index < s.persistedDocs.length := hs.length_eq ▸ hindex
    refine ⟨s.persistedDocs[index], List.getElem?_eq_getElem hdoc, ?_⟩
    rw [← hp]
    exact hs.persistedDocs.get hindex hdoc
  · cases hfound

/-- `call` by its cases; the handshake does not look at the state. -/
theorem call_layer (hit : Option String) :
    call c.serde (shared.layer c s hit) req =
      if req.method = "GET" ∧ shared.playground = some req.path then .error .playground
      else if isWebsocketHandshake req then callHandshake (shared.layer c s none) req
      else match matchPersisted (shared.layer c s hit) req with
        | some (p, caps) => callPersisted c.serde (shared.layer c s hit) p caps req
        | none => callPlain c.serde (shared.layer c s hit) req := rfl

/-- A persisted endpoint stops where `call` does, or goes on to the cache. -/
theorem sound_passPersisted {p : Persisted Num} {caps : List (String × String)}
    (hdoc : c.validate s.schema p.query = .ok p.doc)
    (hcall : ∀ hit, call c.serde (shared.layer c s hit) req =
      callPersisted c.serde (shared.layer c s hit) p caps req) (hit : Option String) :
    Process.Sound c shared ⟨req, passPersisted c shared s req p caps, hit⟩ := by
  unfold passPersisted
  dsimp only
  split
  · next answer henforce =>
    refine ⟨by simp [Outcome.passed], by simp, ?_⟩
    rw [hcall, callPersisted]
    exact congrArg some (congrArg (· >>= _) henforce).symm
  · next henforce =>
    refine ⟨⟨hdoc, henforce, rfl⟩, fun hit => ?_⟩
    rw [hcall, callPersisted]
    dsimp only
    rw [cacheKey_layer hit]
    exact congrArg (· >>= _) henforce

/-- A request that loads a coherent state. -/
theorem sound_load (hs : s.Coherent c shared.persisted) (hit : Option String) :
    Process.Sound c shared ⟨req, load c shared s req, hit⟩ := by
  unfold load
  split
  · next hplayground =>
    refine ⟨by simp [Outcome.passed], by simp, ?_⟩
    dsimp only
    rw [call_layer, if_pos hplayground]
    rfl
  · next hplayground =>
    split
    · next hhandshake =>
      have hcall : ∀ hit, call c.serde (shared.layer c s hit) req = callHandshake (shared.layer c s none) req := by
        intro hit
        rw [call_layer, if_neg hplayground, if_pos hhandshake]
      cases hresult : callHandshake (shared.layer c s none) req with
      | error answer => exact ⟨by simp [Outcome.passed], by simp, by rw [hcall, hresult]; rfl⟩
      | ok forwarded => exact ⟨by simp [Outcome.passed], by simp, by rw [hcall, hresult]; rfl⟩
    · next hhandshake =>
      cases hfind : findPersisted shared req with
      | none =>
        intro hit
        dsimp only
        rw [call_layer, if_neg hplayground, if_neg hhandshake, matchPersisted_layer hs, hfind]
        rfl
      | some r =>
        obtain ⟨index, p, caps⟩ := r
        obtain ⟨doc, hdoc, hvalid⟩ := validate_of_findPersisted hs hfind
        simp only [hdoc]
        refine sound_passPersisted hvalid ?_ hit
        intro hit
        rw [call_layer, if_neg hplayground, if_neg hhandshake, matchPersisted_layer hs, hfind, Option.bind_some, hdoc]
        rfl

/-- A policed request's query was validated, and its document policed. -/
theorem police_ok {st : LayerState Num} {extracted : ExtractedQuery} {doc : ValidDocument}
    (h : police c.serde st req = .ok (extracted, doc)) :
    st.parseAndValidate extracted.query = .ok doc ∧
      enforce st.toGraphQlShared (grantsOf st req) doc.toDocument = .ok () := by
  simp only [police, bind_eq_ok, mapError_eq_ok, pure_eq_ok] at h
  obtain ⟨_, _, _, hdoc, _, _, _, henforce, heq⟩ := h
  cases heq
  exact ⟨hdoc, henforce⟩

/-- A plain request stops where `call` does, or goes on to the cache. -/
theorem sound_extract (hcall : ∀ hit, call c.serde (shared.layer c s hit) req =
      callPlain c.serde (shared.layer c s hit) req) (hit : Option String) :
    Process.Sound c shared ⟨req, extract c shared s req, hit⟩ := by
  unfold extract
  dsimp only
  split
  · next answer hpolice =>
    refine ⟨by simp [Outcome.passed], by simp, ?_⟩
    rw [hcall, callPlain]
    exact congrArg some (congrArg (· >>= _) hpolice).symm
  · next extracted doc hpolice =>
    obtain ⟨hdoc, henforce⟩ := police_ok hpolice
    refine ⟨⟨hdoc, henforce, rfl⟩, fun hit => ?_⟩
    have hpolice' : police c.serde (shared.layer c s hit) req = .ok (extracted, doc) := hpolice
    rw [hcall, callPlain, hpolice']
    simp only [afterGates, ← cacheKey_layer hit]
    rfl

/-- The cache is a miss for `call` where it is for the request, or answers both with one entry. -/
theorem lookupCache_layer (c : SchemaCrates Num Sch) (shared : Shared Num) (s : SchemaState Sch)
    (hit : Option String) (passed : Passed Num) :
    (lookupCache (shared.layer c s hit) passed.key = .ok () ∧ look shared s hit passed = .serving s passed) ∨
      ∃ entry, lookupCache (shared.layer c s hit) passed.key = .error (.cached entry) ∧
        look shared s hit passed = .ended s (.cached passed entry) := by
  unfold lookupCache look Shared.layer
  cases shared.cachePrefix with
  | none => exact .inl ⟨rfl, rfl⟩
  | some keyPrefix =>
    cases passed.key with
    | none => exact .inl ⟨rfl, rfl⟩
    | some key =>
      cases hit with
      | none => exact .inl ⟨rfl, rfl⟩
      | some entry => exact .inr ⟨entry, rfl, rfl⟩

/-- The cache answers as `call`'s does. -/
theorem sound_look {passed : Passed Num} {hit : Option String} (hagainst : passed.Against c shared req s)
    (hcall : call c.serde (shared.layer c s hit) req = afterGates (shared.layer c s hit) passed) :
    Process.Sound c shared ⟨req, look shared s hit passed, hit⟩ := by
  rw [afterGates] at hcall
  obtain ⟨hlookup, hlook⟩ | ⟨entry, hlookup, hlook⟩ := lookupCache_layer c shared s hit passed
  · rw [hlookup] at hcall
    rw [hlook]
    exact ⟨hagainst, hcall⟩
  · rw [hlookup] at hcall
    rw [hlook]
    refine ⟨?_, by simp, congrArg some hcall.symm⟩
    rintro _ ⟨⟩
    exact hagainst

/-- The operation is executed or forwarded as in `call`. -/
theorem sound_serve {passed : Passed Num} {hit : Option String} (hagainst : passed.Against c shared req s)
    (hcall : call c.serde (shared.layer c s hit) req =
      (do ensure (!shared.executes) .executed; return passed.forwarded)) :
    Process.Sound c shared ⟨req, serve shared s passed, hit⟩ := by
  unfold serve
  split
  · next hexecutes =>
    have hexecuted : call c.serde (shared.layer c s hit) req = .error .executed := by
      rw [hcall, hexecutes]
      rfl
    split
    · refine ⟨?_, by simp, by rw [hexecuted]; rfl⟩
      rintro _ ⟨⟩
      exact hagainst
    · exact ⟨hagainst, hexecuted⟩
  · next hexecutes =>
    refine ⟨?_, by simp, ?_⟩
    · rintro _ ⟨⟩
      exact hagainst
    · rw [hcall, Bool.not_eq_true .. |>.mp hexecutes]
      rfl

/-- A request that goes on. -/
theorem sound_advance {active : SchemaState Sch} {hit : Option String} {p : Process Num Sch}
    (hactive : active.Coherent c shared.persisted) (hp : p.Sound c shared) :
    (p.advance c shared active hit).Sound c shared := by
  obtain ⟨req, progress, before⟩ := p
  cases progress with
  | called => exact sound_load hactive before
  | extracting s => exact sound_extract hp before
  | looking s passed => exact sound_look hp.1 (hp.2 hit)
  | serving s passed => exact sound_serve hp.1 hp.2
  | executing s passed =>
    refine ⟨?_, ?_, congrArg some hp.2.symm⟩
    · rintro _ ⟨⟩
      exact hp.1
    · rintro _ _ ⟨⟩
      rfl
  | ended s outcome => exact hp

/-- It keeps the state it has loaded. -/
theorem state_advance {active : SchemaState Sch} {hit : Option String} {p : Process Num Sch}
    (h : p.progress.state = some s) : (p.advance c shared active hit).progress.state = some s := by
  obtain ⟨req, progress, before⟩ := p
  cases progress with
  | called => cases h
  | extracting s =>
    cases h
    simp only [Process.advance, extract]
    split <;> rfl
  | looking s passed =>
    cases h
    simp only [Process.advance, look]
    split <;> rfl
  | serving s passed =>
    cases h
    simp only [Process.advance, serve]
    split
    · split <;> rfl
    · rfl
  | executing s passed => exact h
  | ended s outcome => exact h

theorem req_advance {active : SchemaState Sch} {hit : Option String} {p : Process Num Sch} :
    (p.advance c shared active hit).req = p.req := by
  obtain ⟨req, progress, before⟩ := p
  cases progress <;> rfl

/-- It is in no state but the one it has loaded. -/
theorem Process.Sound.single {p : Process Num Sch} (hp : p.Sound c shared) (h : p.progress.state = some s) :
    p.Single c shared s := by
  obtain ⟨req, progress, hit⟩ := p
  cases progress with
  | called => cases h
  | extracting s => exact ⟨by rintro _ ⟨⟩, by rintro _ _ _ ⟨⟩, by rintro _ _ ⟨⟩⟩
  | looking s passed =>
    cases h
    exact ⟨by rintro _ ⟨⟩; exact hp.1, by rintro _ _ _ ⟨⟩, by rintro _ _ ⟨⟩⟩
  | serving s passed =>
    cases h
    exact ⟨by rintro _ ⟨⟩; exact hp.1, by rintro _ _ _ ⟨⟩, by rintro _ _ ⟨⟩⟩
  | executing s passed =>
    cases h
    exact ⟨by rintro _ ⟨⟩; exact hp.1, by rintro _ _ _ ⟨⟩, by rintro _ _ ⟨⟩⟩
  | ended s outcome =>
    cases h
    refine ⟨hp.1, ?_, ?_⟩
    · rintro _ at_ passed ⟨⟩
      exact hp.2.1 _ _ rfl
    · rintro _ _ ⟨⟩
      exact hp.2.2

/-- A request that is polled loads the state it is polled in. -/
theorem state_load : (load c shared s req).state = some s := by
  unfold load passPersisted
  dsimp only
  split
  · rfl
  · split
    · split <;> rfl
    · split
      · rfl
      · split
        · rfl
        · split <;> rfl

/-- A request has the state it had, or the active one. -/
theorem state_of_advance {active : SchemaState Sch} {hit : Option String} {p : Process Num Sch}
    (h : (p.advance c shared active hit).progress.state = some s) : p.progress.state = some s ∨ s = active := by
  cases hstate : p.progress.state with
  | some t =>
    rw [state_advance hstate] at h
    exact .inl h
  | none =>
    obtain ⟨req, progress, before⟩ := p
    cases progress with
    | called =>
      have hload : (load c shared active req).state = some s := h
      rw [state_load] at hload
      exact .inr (Option.some.inj hload).symm
    | _ => cases hstate

end Single

/-! ### Runs -/

/-- What is in a table after a write is what was written, or was there. -/
theorem update_eq_some {α : Type} {f : ℕ → Option α} {i j : ℕ} {a b : α}
    (h : Function.update f i (some a) j = some b) : (j = i ∧ a = b) ∨ (j ≠ i ∧ f j = some b) := by
  by_cases hji : j = i
  · subst hji
    rw [Function.update_self] at h
    exact .inl ⟨rfl, Option.some.inj h⟩
  · rw [Function.update_of_ne hji] at h
    exact .inr ⟨hji, h⟩

namespace System

section Inv

variable {c : SchemaCrates Num Sch} {shared : Shared Num} {initial : SchemaState Sch} {sys : System Num Sch}

/-- What every run keeps. -/
structure Inv (c : SchemaCrates Num Sch) (shared : Shared Num) (initial : SchemaState Sch) (sys : System Num Sch) :
    Prop where
  active : (sys.states initial).head? = some sys.active
  coherent : ∀ s ∈ sys.states initial, s.Coherent c shared.persisted
  ready : ∀ i response new, sys.attempts i = some ⟨response, .ready new⟩ →
    new.Coherent c shared.persisted ∧ introspectionToSdl c.describeValue response = .ok new.sdl
  swapped : ∀ i s, (i, s) ∈ sys.swaps → ∃ response, sys.attempts i = some ⟨response, .returned (.ok true)⟩ ∧
    introspectionToSdl c.describeValue response = .ok s.sdl
  once : (sys.swaps.map Prod.fst).Nodup
  sound : ∀ i p, sys.requests i = some p → p.Sound c shared
  loaded : ∀ i p s, sys.requests i = some p → p.progress.state = some s → s ∈ sys.states initial

theorem inv_start (h : initial.Coherent c shared.persisted) : Inv c shared initial { active := initial } where
  active := rfl
  coherent := by simpa [states] using h
  ready := by simp
  swapped := by simp
  once := by simp
  sound := by simp
  loaded := by simp

theorem Inv.active_coherent (h : sys.Inv c shared initial) : sys.active.Coherent c shared.persisted :=
  h.coherent _ (List.mem_of_head? h.active)

/-- A new attempt: the state stays, whatever comes of it. -/
theorem apply_cases (c : SchemaCrates Num Sch) (shared : Shared Num) (sys : System Num Sch) (i : ℕ) (response : Json Num) (now : ℕ) :
    ∃ status phase, sys.apply c shared i response now =
        { sys with status, attempts := Function.update sys.attempts i (some ⟨response, phase⟩) } ∧
      ((∃ result, phase = .returned result ∧ result ≠ .ok true ∧
          ∀ new, applyIntrospection c shared sys.active response ≠ .ok (some new)) ∨
        ∃ new, phase = .ready new ∧ applyIntrospection c shared sys.active response = .ok (some new)) := by
  unfold apply
  cases h : applyIntrospection c shared sys.active response with
  | error e => exact ⟨_, _, rfl, .inl ⟨_, rfl, by simp, by simp⟩⟩
  | ok result =>
    cases result with
    | none => exact ⟨_, _, rfl, .inl ⟨_, rfl, by simp, by simp⟩⟩
    | some new => exact ⟨_, _, rfl, .inr ⟨new, rfl, rfl⟩⟩

theorem Inv.apply (h : sys.Inv c shared initial) {i : ℕ} (hi : sys.attempts i = none) (response : Json Num) (now : ℕ) :
    (sys.apply c shared i response now).Inv c shared initial := by
  obtain ⟨status, phase, heq, hphase⟩ := apply_cases c shared sys i response now
  rw [heq]
  refine ⟨h.active, h.coherent, ?_, ?_, h.once, h.sound, h.loaded⟩
  · intro j response' new hj
    obtain ⟨-, hattempt⟩ | ⟨-, hj⟩ := update_eq_some hj
    · cases hattempt
      rcases hphase with ⟨_, hcontra, -⟩ | ⟨new', hnew, happly⟩
      · cases hcontra
      · cases hnew
        exact coherent_of_applyIntrospection happly
    · exact h.ready j response' new hj
  · intro j s hj
    obtain ⟨response', hattempt, hsdl⟩ := h.swapped j s hj
    have hji : j ≠ i := by
      rintro rfl
      rw [hi] at hattempt
      cases hattempt
    exact ⟨response', (Function.update_of_ne hji _ _).trans hattempt, hsdl⟩

theorem Inv.store (h : sys.Inv c shared initial) {i : ℕ} {response : Json Num} {new : SchemaState Sch}
    (hi : sys.attempts i = some ⟨response, .ready new⟩) (now : ℕ) :
    (sys.store i response new now).Inv c shared initial := by
  obtain ⟨hcoherent, hsdl⟩ := h.ready i response new hi
  -- An attempt that is still to store is not among the swaps.
  have hfresh : ∀ s, (i, s) ∉ sys.swaps := by
    intro s hs
    obtain ⟨_, hreturned, -⟩ := h.swapped i s hs
    rw [hi] at hreturned
    cases hreturned
  refine ⟨rfl, ?_, ?_, ?_, ?_, h.sound, ?_⟩
  · intro s hs
    rcases List.mem_cons.1 hs with rfl | hs
    · exact hcoherent
    · exact h.coherent s hs
  · intro j response' new' hj
    obtain ⟨rfl, heq⟩ | ⟨-, hj⟩ := update_eq_some hj
    · cases heq
    · exact h.ready j response' new' hj
  · intro j s hj
    rcases List.mem_cons.1 hj with heq | hbefore
    · cases heq
      exact ⟨response, Function.update_self _ _ _, hsdl⟩
    · obtain ⟨response', hattempt, hsdl'⟩ := h.swapped j s hbefore
      have hji : j ≠ i := by
        rintro rfl
        exact hfresh s hbefore
      exact ⟨response', (Function.update_of_ne hji _ _).trans hattempt, hsdl'⟩
  · refine List.nodup_cons.2 ⟨?_, h.once⟩
    intro hmem
    obtain ⟨⟨j, s⟩, hj, rfl⟩ := List.mem_map.1 hmem
    exact hfresh s hj
  · intro j p s hj hs
    exact List.mem_cons_of_mem _ (h.loaded j p s hj hs)

theorem Inv.setRequest (h : sys.Inv c shared initial) {i : ℕ} {p : Process Num Sch} (hp : p.Sound c shared)
    (hstate : ∀ s, p.progress.state = some s → s ∈ sys.states initial) :
    Inv c shared initial { sys with requests := Function.update sys.requests i (some p) } := by
  refine ⟨h.active, h.coherent, h.ready, h.swapped, h.once, ?_, ?_⟩
  · intro j q hq
    obtain ⟨rfl, rfl⟩ | ⟨-, hq⟩ := update_eq_some hq
    · exact hp
    · exact h.sound j q hq
  · intro j q s hq hs
    obtain ⟨rfl, rfl⟩ | ⟨-, hq⟩ := update_eq_some hq
    · exact hstate s hs
    · exact h.loaded j q s hq hs

theorem Inv.step (h : sys.Inv c shared initial) (act : SyncAct Num) : (sys.step c shared act).Inv c shared initial := by
  cases act with
  | apply i response now =>
    rw [System.step]
    split
    · next hi => exact h.apply (Option.isNone_iff_eq_none.1 hi.2) response now
    · exact h
  | store i now =>
    rw [System.step]
    split
    · next response new hi => exact h.store hi now
    · exact h
  | recordError error => exact ⟨h.active, h.coherent, h.ready, h.swapped, h.once, h.sound, h.loaded⟩
  | call i req =>
    rw [System.step]
    split
    · refine h.setRequest trivial ?_
      rintro s ⟨⟩
    · exact h
  | advance i hit =>
    rw [System.step]
    split
    · next p hp =>
      refine h.setRequest (sound_advance h.active_coherent (h.sound i p hp)) ?_
      intro s hs
      rcases state_of_advance hs with hs | rfl
      · exact h.loaded i p s hp hs
      · exact List.mem_of_head? h.active
    · exact h

theorem Inv.run (h : sys.Inv c shared initial) (acts : List (SyncAct Num)) : (sys.run c shared acts).Inv c shared initial := by
  induction acts generalizing sys with
  | nil => exact h
  | cons act acts ih => exact ih (h.step act)

/-- An attempt that returned has returned for good. -/
theorem returned_step {i : ℕ} {response : Json Num} {result : Except String Bool}
    (h : sys.attempts i = some ⟨response, .returned result⟩) (act : SyncAct Num) :
    (sys.step c shared act).attempts i = some ⟨response, .returned result⟩ := by
  cases act with
  | apply j response' now =>
    rw [System.step]
    split
    · next hj =>
      obtain ⟨_, _, heq, -⟩ := apply_cases c shared sys j response' now
      have hij : i ≠ j := by
        rintro rfl
        rw [h] at hj
        cases hj.2
      rw [heq]
      exact (Function.update_of_ne hij _ _).trans h
    · exact h
  | store j now =>
    rw [System.step]
    split
    · next hj =>
      have hij : i ≠ j := by
        rintro rfl
        rw [h] at hj
        cases hj
      exact (Function.update_of_ne hij _ _).trans h
    · exact h
  | recordError error => exact h
  | call j req =>
    rw [System.step]
    split <;> exact h
  | advance j hit =>
    rw [System.step]
    split <;> exact h

theorem returned_run {i : ℕ} {response : Json Num} {result : Except String Bool}
    (h : sys.attempts i = some ⟨response, .returned result⟩) (acts : List (SyncAct Num)) :
    (sys.run c shared acts).attempts i = some ⟨response, .returned result⟩ := by
  induction acts generalizing sys with
  | nil => exact h
  | cons act acts ih => exact ih (returned_step h act)

/-- A request that has loaded a state has it after every action. -/
theorem state_step (c : SchemaCrates Num Sch) (shared : Shared Num) {i : ℕ} {p : Process Num Sch}
    {s : SchemaState Sch} (hp : sys.requests i = some p) (hs : p.progress.state = some s) (act : SyncAct Num) :
    ∃ q, (sys.step c shared act).requests i = some q ∧ q.req = p.req ∧ q.progress.state = some s := by
  cases act with
  | apply j response now =>
    rw [System.step]
    split
    · obtain ⟨_, _, heq, -⟩ := apply_cases c shared sys j response now
      rw [heq]
      exact ⟨p, hp, rfl, hs⟩
    · exact ⟨p, hp, rfl, hs⟩
  | store j now =>
    rw [System.step]
    split <;> exact ⟨p, hp, rfl, hs⟩
  | recordError error => exact ⟨p, hp, rfl, hs⟩
  | call j req =>
    rw [System.step]
    split
    · next hj =>
      have hij : i ≠ j := by
        rintro rfl
        rw [hp] at hj
        cases hj
      exact ⟨p, (Function.update_of_ne hij _ _).trans hp, rfl, hs⟩
    · exact ⟨p, hp, rfl, hs⟩
  | advance j hit =>
    rw [System.step]
    split
    · next q hq =>
      by_cases hij : i = j
      · subst hij
        rw [hp] at hq
        cases hq
        exact ⟨_, Function.update_self _ _ _, req_advance, state_advance hs⟩
      · exact ⟨p, (Function.update_of_ne hij _ _).trans hp, rfl, hs⟩
    · exact ⟨p, hp, rfl, hs⟩

theorem state_run {i : ℕ} {p : Process Num Sch} {s : SchemaState Sch} (hp : sys.requests i = some p)
    (hs : p.progress.state = some s) (acts : List (SyncAct Num)) :
    ∃ q, (sys.run c shared acts).requests i = some q ∧ q.req = p.req ∧ q.progress.state = some s := by
  induction acts generalizing sys p with
  | nil => exact ⟨p, hp, rfl, hs⟩
  | cons act acts ih =>
    obtain ⟨q, hq, hreq, hstate⟩ := state_step c shared hp hs act
    obtain ⟨r, hr, hreq', hstate'⟩ := ih hq hstate
    exact ⟨r, hr, hreq'.trans hreq, hstate'⟩

end Inv

/-- **All or nothing**: what a reader of the schema state may rely on. -/
structure AllOrNothing (c : SchemaCrates Num Sch) (shared : Shared Num) (initial : SchemaState Sch)
    (sys : System Num Sch) : Prop where
  /-- The active state is the one stored last. -/
  active : (sys.states initial).head? = some sys.active
  coherent : ∀ s ∈ sys.states initial, s.Coherent c shared.persisted
  /-- The swaps are those of attempts that returned `Ok(true)`, each the state of its answer, once. -/
  swapped : ∀ i s, (i, s) ∈ sys.swaps → ∃ response, sys.attempts i = some ⟨response, .returned (.ok true)⟩ ∧
    introspectionToSdl c.describeValue response = .ok s.sdl
  once : (sys.swaps.map Prod.fst).Nodup
  /-- A new attempt that fails, or has the active SDL, leaves the state, then and later. -/
  unswapped : ∀ i response now, shared.sync = true → sys.attempts i = none →
    (∀ new, applyIntrospection c shared sys.active response ≠ .ok (some new)) →
    (sys.step c shared (.apply i response now)).active = sys.active ∧
      ∀ acts s, (i, s) ∉ ((sys.step c shared (.apply i response now)).run c shared acts).swaps
  equalSdl : ∀ response, introspectionToSdl c.describeValue response = .ok sys.active.sdl →
    applyIntrospection c shared sys.active response = .ok none
  /-- A request loads the active state. -/
  loads : ∀ i p hit, sys.requests i = some p → p.progress.state = none →
    ∃ q, (sys.step c shared (.advance i hit)).requests i = some q ∧ q.progress.state = some sys.active
  /-- It is in that one state, whatever is stored while it is in flight. -/
  single : ∀ i p s, sys.requests i = some p → p.progress.state = some s →
    s ∈ sys.states initial ∧ p.Single c shared s ∧
      ∀ acts, ∃ q, (sys.run c shared acts).requests i = some q ∧ q.req = p.req ∧ q.progress.state = some s

section AllOrNothing

variable {c : SchemaCrates Num Sch} {shared : Shared Num} {initial : SchemaState Sch} {sys : System Num Sch}

/-- An attempt that does not come to store is never among the swaps. -/
theorem Inv.unswapped (h : sys.Inv c shared initial) {i : ℕ} {response : Json Num} (now : ℕ)
    (hsync : shared.sync = true) (hi : sys.attempts i = none)
    (hresult : ∀ new, applyIntrospection c shared sys.active response ≠ .ok (some new)) :
    (sys.step c shared (.apply i response now)).active = sys.active ∧
      ∀ acts s, (i, s) ∉ ((sys.step c shared (.apply i response now)).run c shared acts).swaps := by
  obtain ⟨status, phase, heq, hphase⟩ := apply_cases c shared sys i response now
  have hstep : sys.step c shared (.apply i response now) = sys.apply c shared i response now := by
    rw [System.step, if_pos ⟨hsync, by rw [hi]; rfl⟩]
  refine ⟨by rw [hstep, heq], ?_⟩
  intro acts s hs
  obtain ⟨response', hreturned, -⟩ := ((h.step (.apply i response now)).run acts).swapped i s hs
  rcases hphase with ⟨result, rfl, hne, -⟩ | ⟨new, -, happly⟩
  · have hattempt : (sys.step c shared (.apply i response now)).attempts i = some ⟨response, .returned result⟩ := by
      rw [hstep, heq]
      exact Function.update_self _ _ _
    rw [returned_run hattempt acts] at hreturned
    cases hreturned
    exact hne rfl
  · exact hresult new happly

theorem Inv.allOrNothing (h : sys.Inv c shared initial) : sys.AllOrNothing c shared initial where
  active := h.active
  coherent := h.coherent
  swapped := h.swapped
  once := h.once
  unswapped i response now hsync hi hresult := h.unswapped now hsync hi hresult
  equalSdl response hsdl := applyIntrospection_eq_none.2 hsdl
  loads i p hit hp hstate := by
    obtain ⟨req, progress, before⟩ := p
    cases progress with
    | called =>
      refine ⟨Process.advance c shared sys.active hit ⟨req, .called, before⟩, ?_, state_load⟩
      rw [System.step, hp]
      exact Function.update_self _ _ _
    | _ => cases hstate
  single i p s hp hs := ⟨h.loaded i p s hp hs, (h.sound i p hp).single hs, state_run hp hs⟩

end AllOrNothing

end System

/-- In every run of syncs and requests, the schema state is swapped as a whole or not at all. -/
theorem schema_sync_all_or_nothing (c : SchemaCrates Num Sch) (config : GraphQlConfig (GraphQlBlocks Num))
    (def_ : ApiDefinition (GraphQlBlocks Num)) (fetch : Bool) (scope : Option String) (shared : Shared Num)
    (initial : SchemaState Sch) (h : fromConfig c config def_ fetch scope = .ok (some (shared, initial)))
    (acts : List (SyncAct Num)) :
    (System.run c shared { active := initial } acts).AllOrNothing c shared initial :=
  ((System.inv_start (coherent_of_fromConfig h)).run acts).allOrNothing

/-- The SDL an API is configured with. -/
def seedSdl : String := "type Query \x7b hello: String \x7d"

/-- The answer of its upstream, which has a second field by now. -/
def grownResponse : Json ℕ :=
  let field := fun name => Json.object [("name", .string name),
    ("type", .object [("kind", .string "SCALAR"), ("name", .string "String")])]
  .object [("data", .object [("__schema", .object [("queryType", .object [("name", .string "Query")]),
    ("types", .array [.object [("kind", .string "OBJECT"), ("name", .string "Query"),
      ("fields", .array [field "hello", field "bye"])]])])])]

/-- The SDL of that answer. -/
def grownSdl : String :=
  "schema \x7b\n  query: Query\n\x7d\n\ntype Query \x7b\n  hello: String\n  bye: String\n\x7d\n"

/-- The crates, on these texts; a schema is the fields of its root. -/
def helloCrates : SchemaCrates ℕ (List Name) where
  serde := batchSerde
  describeValue _ := ""
  describeText _ := ""
  parse _ := .error ["unexpected"]
  compile sdl :=
    if sdl = seedSdl then .ok ["hello"] else if sdl = grownSdl then .ok ["hello", "bye"] else .error ["unexpected"]
  validate schema text :=
    if text = helloText ∧ "hello" ∈ schema then .ok helloDocument else .error ["no such field"]
  hashKey text :=
    if text = seedSdl then "94f327bbff58c40247c85a8e0691dcaf26b906285e7f5c031b3ee229c89fe676"
    else if text = grownSdl then "0455875f092eb7ce39a178c6772a8cf0e739e399203b30623300d588d1451469"
    else ""
  regex pattern :=
    if pattern = "^/gql/hello$" then .ok fun path => if path = "/gql/hello" then some [] else none
    else .error "unexpected"
  parseUri _ := .ok ()
  parseSubgraphSchema _ := .error "unexpected"
  print _ := ""
  compileUdg _ := .ok ()
  compileSupergraph _ := .ok ()

/-- An API with a persisted endpoint, kept in sync. -/
def helloConfig : GraphQlConfig (GraphQlBlocks ℕ) where
  blocks :=
    { schema := seedSdl
      persistedQueries := [{ method := "get", path := "/hello", operation := helloText }]
      schemaSync := true }

/-- Its definition. -/
def helloDefinition : ApiDefinition (GraphQlBlocks ℕ) where
  apiId := "gql"
  name := "GraphQL"
  listenPath := "/gql/"
  targetUrl := "http://upstream.internal/graphql"
  blocks := helloConfig.blocks

/-- A swap while a request of the endpoint is in flight. -/
def swapInFlight : List (SyncAct ℕ) :=
  [.call 0 { path := "/gql/hello" }, .advance 0 none, .apply 0 grownResponse 1700000000, .store 0 1700000000,
    .advance 0 none, .advance 0 none]

theorem schema_sync_all_or_nothing_swapInFlight :
    ∃ shared initial, fromConfig helloCrates helloConfig helloDefinition false none = .ok (some (shared, initial)) ∧
      (System.run helloCrates shared { active := initial } swapInFlight).AllOrNothing helloCrates shared initial ∧
      (System.run helloCrates shared { active := initial } swapInFlight).active.sdl = grownSdl :=
  ⟨_, _, rfl, schema_sync_all_or_nothing helloCrates helloConfig helloDefinition false none _ _ rfl swapInFlight,
    by decide +kernel⟩

end G2way.GraphQl
