import G2way.Middleware.Plugin

/-!
# Guests

`g2-plugin/src/exec.rs` and `abi.rs`: a plugin is a WebAssembly module that runs in a fresh instance for
each request. "Per invocation the host serializes a JSON **input** document, writes it at
`g2_alloc(len)`, calls `g2_hook(ptr, len)`, and reads the JSON **output** document the packed return
value points at."

## The model

A guest is whatever its exports make of its globals and its memory, traps and the deadline included. The
limiter of its store is a field of every instance: no memory is larger than the cap of the plugin. A
module without the exports, or of another ABI version, does not load, and is left out. What serde reads
from an output document is a parameter.

## What is proved

* `guest_exchange`: whatever a guest does, it is handed the whole input document where it asked for it,
  the rest of its memory being untouched, and only bytes of its memory are read back.
* `guests_inject_nothing`: whatever the guests of a slot do, the request that goes on, or the answer,
  has nothing but well-formed header lines.
-/

namespace G2way.Middleware.Guest

open G2way.Core G2way.Lib G2way.Lib.Result G2way.Middleware.Plugin

variable {Num γ : Type}

/-! ### Documents -/

section Abi

/-- `WireInput`: "the input document written into guest memory". -/
def wireInput [NatCast Num] (call : HookInvocation) (config : Json Num) : Json Num :=
  let text (o : Option String) : Json Num := o.elim .null .string
  .object [
    ("abi_version", .number (1 : ℕ)),
    ("hook", .string call.kind.asStr),
    ("api_id", .string call.apiId),
    ("org_id", .string call.orgId),
    ("plugin_config", config),
    ("request", .object [
      ("method", .string call.method),
      ("path", .string call.path),
      ("query", text call.query),
      ("headers", .array (call.headers.map fun p => .array [.string p.1, .string (Text.fromUtf8Lossy p.2)])),
      ("client_addr", text call.clientAddr)]),
    ("session", call.sessionAlias.elim .null fun alias_ => .object [("alias", .string alias_)])]

/-- `encode_input`. -/
def encodeInput [NatCast Num] (d : Num → String) (call : HookInvocation) (config : Json Num) : List UInt8 :=
  Text.utf8 ((wireInput call config).toText d)

/-- `WireResponse`: "the short-circuit response". -/
structure WireResponse where
  status : ℕ
  headers : List (String × String) := []
  body : String := ""

/-- `WireOutput`: "the output document read back from guest memory". -/
inductive WireOutput where
  | continue_ (setHeaders : List (String × String)) (removeHeaders : List String)
  | respond (response : WireResponse)

/-- `parse_header_name`. -/
def parseHeaderName (name : String) : Except String String :=
  okOr (headerName name) ("guest returned invalid header name `" ++ name ++ "`")

/-- `parse_header`. -/
def parseHeader (p : String × String) : Except String (String × HeaderValue) := do
  let name ← parseHeaderName p.1
  let value ← okOr (headerValueFromStr p.2) ("guest returned invalid header value for `" ++ p.1 ++ "`")
  return (name, value)

/-- What a document says, as an outcome. -/
def WireOutput.outcome : WireOutput → Except String HookOutcome
  | .continue_ setHeaders removeHeaders => do
    let setHeaders ← setHeaders.mapM parseHeader
    let removeHeaders ← removeHeaders.mapM parseHeaderName
    return .continue_ ⟨setHeaders, removeHeaders⟩
  | .respond response => do
    ensure (100 ≤ response.status && response.status ≤ 599)
      ("guest returned invalid response status " ++ toString response.status)
    let headers ← response.headers.mapM parseHeader
    return .respond ⟨response.status, headers, Text.utf8 response.body⟩

/-- `decode_output`. -/
def decodeOutput (fromSlice : List UInt8 → Except String WireOutput) (bytes : List UInt8) :
    Except String HookOutcome := do
  let output ← (fromSlice bytes).mapError fun e => "guest returned invalid output JSON: " ++ e
  output.outcome

end Abi

/-! ### Running a guest -/

/-- A `wasmtime::Error`. -/
inductive Failure where
  /-- The epoch deadline. -/
  | interrupt
  | trap (text : String)
  | other (text : String)

/-- An instance between two calls, in a store whose limiter has this cap. -/
structure Instance (γ : Type) (cap : ℕ) where
  globals : γ
  memory : List UInt8
  fits : memory.length ≤ cap

/-- A module: what its exports do. -/
structure Exports (γ : Type) (cap : ℕ) where
  instantiate : Except Failure (Instance γ cap)
  /-- `g2_alloc`: "reserve `len` bytes of guest memory for the host to write into". -/
  alloc : BitVec 32 → Instance γ cap → Except Failure (BitVec 32 × Instance γ cap)
  /-- `g2_hook`: "run the hook; returns `(out_ptr << 32) | out_len`". -/
  hook : BitVec 32 → BitVec 32 → Instance γ cap → Except Failure (BitVec 64 × Instance γ cap)

/-- `CompiledPlugin`: the module of a plugin, "run per request in a fresh store". -/
structure CompiledPlugin (Num γ : Type) where
  plugin : PluginRef Num
  guest : Exports γ plugin.effectiveMaxMemoryBytes

/-- `Memory::write`: nothing is written out of bounds. -/
def Instance.write {cap : ℕ} (i : Instance γ cap) (ptr : ℕ) (bytes : List UInt8) : Option (Instance γ cap) :=
  if h : ptr + bytes.length ≤ i.memory.length then
    some { i with
      memory := i.memory.take ptr ++ bytes ++ i.memory.drop (ptr + bytes.length)
      fits := by
        have hcap := i.fits
        simp only [List.length_append, List.length_take, List.length_drop]
        omega }
  else none

/-- `data.get(ptr..ptr + len)`. -/
def slice (data : List UInt8) (ptr len : ℕ) : Option (List UInt8) :=
  if ptr + len ≤ data.length then some ((data.drop ptr).take len) else none

/-- The pointer that the hook is called with: `i32::try_from(ptr).unwrap_or(i32::MAX)`. -/
def hookPtr (ptr : ℕ) : BitVec 32 := BitVec.ofNat 32 (if ptr < 2 ^ 31 then ptr else 2 ^ 31 - 1)

namespace CompiledPlugin

variable (p : CompiledPlugin Num γ)

/-- `describe_error`. -/
def describeError : Failure → String
  | .interrupt => "timed out after " ++ toString p.plugin.effectiveTimeoutMs ++ "ms"
  | .trap text => "guest trapped: " ++ text
  | .other text => "guest failed: " ++ text

variable [NatCast Num] (fromSlice : List UInt8 → Except String WireOutput) (d : Num → String)

/-- `run`. -/
def run (call : HookInvocation) : Except String HookOutcome := do
  let input := encodeInput d call p.plugin.config
  ensure (input.length < 2 ^ 31) "hook input exceeds guest address space"
  let inputLen := BitVec.ofNat 32 input.length
  let fresh ← p.guest.instantiate.mapError p.describeError
  let reserved ← (p.guest.alloc inputLen fresh).mapError p.describeError
  let ptr := reserved.1.toNat
  -- the memory after the call: the guest may have grown it
  ensure (ptr + input.length ≤ reserved.2.memory.length) "g2_alloc returned an out-of-bounds buffer"
  let handed ← okOr (reserved.2.write ptr input) "failed to write hook input: out of bounds memory access"
  let returned ← (p.guest.hook (hookPtr ptr) inputLen handed).mapError p.describeError
  let packed := returned.1.toNat
  let out ← okOr (slice returned.2.memory (packed / 2 ^ 32) (packed % 2 ^ 32))
    "guest returned an out-of-bounds output buffer"
  decodeOutput fromSlice out

/-- A plugin, as the layer sees it. -/
def exec : PluginExec := ⟨p.plugin.name, p.run fromSlice d⟩

end CompiledPlugin

/-! ### What a guest is handed, and what it hands back -/

/-- One exchange with a guest. -/
structure Exchange (p : CompiledPlugin Num γ) (input out : List UInt8) (ptr : BitVec 32) (packed : BitVec 64)
    (allocated handed finished : Instance γ p.plugin.effectiveMaxMemoryBytes) : Prop where
  /-- It reserves memory for the input, in a fresh instance, -/
  reserved : ∃ fresh, p.guest.instantiate = .ok fresh ∧
    p.guest.alloc (BitVec.ofNat 32 input.length) fresh = .ok (ptr, allocated)
  length : (BitVec.ofNat 32 input.length).toNat = input.length
  /-- where it finds the whole input, -/
  placed : slice handed.memory ptr.toNat input.length = some input
  /-- and everything else as it was, -/
  frame : handed.globals = allocated.globals ∧ handed.memory.length = allocated.memory.length ∧
    ∀ a, a < ptr.toNat ∨ ptr.toNat + input.length ≤ a → handed.memory[a]? = allocated.memory[a]?
  /-- and it is told so; -/
  called : p.guest.hook ptr (BitVec.ofNat 32 input.length) handed = .ok (packed, finished)
  /-- what it hands back is in its memory. -/
  output : slice finished.memory (packed.toNat / 2 ^ 32) (packed.toNat % 2 ^ 32) = some out

section Exchange

variable {p : CompiledPlugin Num γ}

theorem slice_eq_some {data out : List UInt8} {ptr len : ℕ} :
    slice data ptr len = some out ↔ ptr + len ≤ data.length ∧ (data.drop ptr).take len = out := by
  rw [slice]
  split_ifs with h
  · simp [h]
  · simp [h]

section Write

variable {cap ptr : ℕ} {i j : Instance γ cap} {bytes : List UInt8}

theorem write_eq_some (h : i.write ptr bytes = some j) : ptr + bytes.length ≤ i.memory.length ∧
    j.globals = i.globals ∧ j.memory = i.memory.take ptr ++ bytes ++ i.memory.drop (ptr + bytes.length) := by
  rw [Instance.write] at h
  split_ifs at h with hbound
  obtain rfl := Option.some.inj h
  exact ⟨hbound, rfl, rfl⟩

theorem length_write (h : i.write ptr bytes = some j) : j.memory.length = i.memory.length := by
  obtain ⟨hbound, -, hmemory⟩ := write_eq_some h
  simp only [hmemory, List.length_append, List.length_take, List.length_drop]
  omega

/-- What is written is there, -/
theorem slice_write (h : i.write ptr bytes = some j) : slice j.memory ptr bytes.length = some bytes := by
  have hlength := length_write h
  obtain ⟨hbound, -, hmemory⟩ := write_eq_some h
  have htake : (i.memory.take ptr).length = ptr := List.length_take_of_le (by omega)
  refine slice_eq_some.2 ⟨hlength ▸ hbound, ?_⟩
  rw [hmemory, List.append_assoc, List.drop_left' htake, List.take_left' rfl]

/-- and nothing else is written. -/
theorem getElem?_write (h : i.write ptr bytes = some j) {a : ℕ} (ha : a < ptr ∨ ptr + bytes.length ≤ a) :
    j.memory[a]? = i.memory[a]? := by
  obtain ⟨hbound, -, hmemory⟩ := write_eq_some h
  have htake : (i.memory.take ptr).length = ptr := List.length_take_of_le (by omega)
  rw [hmemory]
  rcases ha with ha | ha
  · rw [List.append_assoc, List.getElem?_append_left (by omega), List.getElem?_take_of_lt ha]
  · have hlength : (i.memory.take ptr ++ bytes).length = ptr + bytes.length := by
      rw [List.length_append, htake]
    rw [List.getElem?_append_right (by omega), hlength, List.getElem?_drop, Nat.add_sub_cancel' ha]

end Write

/-- A plugin that is accepted has less memory than a pointer of the ABI can tell. -/
theorem cap_of_validate {plugin : PluginRef Num} {list : String} {index : ℕ}
    (h : plugin.validate list index = .ok ()) : plugin.effectiveMaxMemoryBytes < 2 ^ 31 := by
  simp only [PluginRef.validate, bind_eq_ok] at h
  obtain ⟨_, -, _, -, _, -, hmemory⟩ := h
  cases hbytes : plugin.maxMemoryBytes with
  | none => simp [PluginRef.effectiveMaxMemoryBytes, hbytes]
  | some bytes =>
    have hmax : maxMemoryBytes = 268435456 := rfl
    simp only [hbytes, ifSome, ensure_eq_ok, Bool.and_eq_true, decide_eq_true_eq] at hmemory
    simp only [PluginRef.effectiveMaxMemoryBytes, hbytes, Option.getD_some]
    omega

theorem hookPtr_toNat {ptr : BitVec 32} (h : ptr.toNat < 2 ^ 31) : hookPtr ptr.toNat = ptr := by
  rw [hookPtr, if_pos h, BitVec.ofNat_toNat, BitVec.setWidth_eq]

variable [NatCast Num] {fromSlice : List UInt8 → Except String WireOutput} {d : Num → String}

/-- **Whatever a guest does**, an outcome is what it said about the whole input. -/
theorem guest_exchange {list : String} {index : ℕ} {call : HookInvocation} {outcome : HookOutcome}
    (hvalid : p.plugin.validate list index = .ok ()) (h : p.run fromSlice d call = .ok outcome) :
    ∃ out ptr packed allocated handed finished,
      Exchange p (encodeInput d call p.plugin.config) out ptr packed allocated handed finished ∧
        decodeOutput fromSlice out = .ok outcome := by
  simp only [CompiledPlugin.run, bind_eq_ok, ensure_eq_ok, okOr_eq_ok, mapError_eq_ok, decide_eq_true_eq] at h
  obtain ⟨_, hlength, fresh, hfresh, ⟨ptr, allocated⟩, halloc, _, hbound, handed, hwrite, ⟨packed, finished⟩, hhook,
    out, hout, hdecode⟩ := h
  dsimp only at hbound hwrite hhook hout
  have hptr : ptr.toNat < 2 ^ 31 := by
    have hcap := cap_of_validate hvalid
    have hfits := allocated.fits
    omega
  refine ⟨out, ptr, packed, allocated, handed, finished, ⟨⟨fresh, hfresh, halloc⟩, ?_, slice_write hwrite, ?_, ?_, hout⟩,
    hdecode⟩
  · rw [BitVec.toNat_ofNat]
    exact Nat.mod_eq_of_lt (by omega)
  · exact ⟨(write_eq_some hwrite).2.1, length_write hwrite, fun a => getElem?_write hwrite⟩
  · rw [← hookPtr_toNat hptr]
    exact hhook

/-- A run from the exchange with the guest. -/
theorem run_of_exchange {call : HookInvocation} {out : List UInt8} {ptr : BitVec 32} {packed : BitVec 64}
    {fresh allocated handed finished : Instance γ p.plugin.effectiveMaxMemoryBytes}
    (hlength : (encodeInput d call p.plugin.config).length < 2 ^ 31) (hfresh : p.guest.instantiate = .ok fresh)
    (halloc : p.guest.alloc (BitVec.ofNat 32 (encodeInput d call p.plugin.config).length) fresh = .ok (ptr, allocated))
    (hwrite : allocated.write ptr.toNat (encodeInput d call p.plugin.config) = some handed)
    (hhook : p.guest.hook (hookPtr ptr.toNat) (BitVec.ofNat 32 (encodeInput d call p.plugin.config).length) handed =
      .ok (packed, finished))
    (hout : slice finished.memory (packed.toNat / 2 ^ 32) (packed.toNat % 2 ^ 32) = some out) :
    p.run fromSlice d call = decodeOutput fromSlice out := by
  have hbound := (write_eq_some hwrite).1
  simp only [CompiledPlugin.run, hfresh, halloc, hhook, hout, hwrite, okOr, Except.mapError, ok_bind, ensure, hlength,
    hbound, decide_true, if_true]

/-- A guest that "ignores its input and returns `output` verbatim from a data segment". -/
def verbatim (name : String) (output : List UInt8) (h : output.length ≤ 512) : CompiledPlugin ℕ Unit where
  plugin := { name := name, path := name ++ ".wasm", config := .null }
  guest :=
    { instantiate := .ok ⟨(), output ++ List.replicate 512 0, by
        have hcap : 1024 ≤ 16 * 1024 * 1024 := by decide
        rw [List.length_append, List.length_replicate]
        exact (Nat.add_le_add_right h 512).trans hcap⟩
      alloc := fun _ i => .ok (BitVec.ofNat 32 output.length, i)
      hook := fun _ _ i => .ok (BitVec.ofNat 64 output.length, i) }

/-- The output of one that lets every request go on. -/
def allowOutput : List UInt8 := Text.utf8 "\x7b\"action\":\"continue\"\x7d"

/-- That one. -/
def allowing : CompiledPlugin ℕ Unit := verbatim "allow" allowOutput (by rw [allowOutput, Text.utf8_ofList]; decide +kernel)

/-- What serde reads from its output. -/
def readAllowing (bytes : List UInt8) : Except String WireOutput :=
  if bytes = allowOutput then .ok (.continue_ [] []) else .error "expected value at line 1 column 1"

/-- A request to the users API. -/
def usersCall : HookInvocation := invocation .pre "users" "default" { headers := [("host", headerValue "example.com")] }

/-- What such a guest is run for is its output, where the input fits. -/
theorem run_verbatim {name : String} {output : List UInt8} (h : output.length ≤ 512) {call : HookInvocation}
    {fromSlice : List UInt8 → Except String WireOutput} {d : ℕ → String}
    (hinput : (encodeInput d call .null).length ≤ 512) :
    (verbatim name output h).run fromSlice d call = decodeOutput fromSlice output := by
  have hptr : (BitVec.ofNat 32 output.length).toNat = output.length := by
    rw [BitVec.toNat_ofNat]
    exact Nat.mod_eq_of_lt (by omega)
  have hpacked : (BitVec.ofNat 64 output.length).toNat = output.length := by
    rw [BitVec.toNat_ofNat]
    exact Nat.mod_eq_of_lt (by omega)
  have hroom : output.length + (encodeInput d call .null).length ≤ (output ++ List.replicate 512 (0 : UInt8)).length := by
    rw [List.length_append, List.length_replicate]
    omega
  obtain ⟨fresh, hfresh, hmemory⟩ : ∃ fresh, (verbatim name output h).guest.instantiate = .ok fresh ∧
      fresh.memory = output ++ List.replicate 512 0 := ⟨_, rfl, rfl⟩
  obtain ⟨handed, hwrite⟩ : ∃ handed, fresh.write (BitVec.ofNat 32 output.length).toNat (encodeInput d call .null) =
      some handed := ⟨_, dif_pos (by rw [hptr, hmemory]; exact hroom)⟩
  refine run_of_exchange (show (encodeInput d call .null).length < 2 ^ 31 by omega) hfresh rfl hwrite rfl ?_
  obtain ⟨-, -, hhanded⟩ := write_eq_some hwrite
  have hlt : output.length < 2 ^ 32 := by omega
  rw [hpacked, Nat.div_eq_of_lt hlt, Nat.mod_eq_of_lt hlt, slice_eq_some, hhanded, hptr, hmemory]
  refine ⟨?_, ?_⟩
  · simp only [List.length_append, List.length_take, List.length_drop, List.length_replicate]
    omega
  · rw [List.drop_zero, List.take_left' rfl, List.append_assoc, List.take_left' rfl]

theorem run_allowing :
    allowing.run readAllowing (fun n => toString n) usersCall = .ok (.continue_ ⟨[], []⟩) := by
  -- the document is not built as a string, which the kernel is slow to take apart
  simp only [CompiledPlugin.run, encodeInput, Text.utf8, Json.toText, String.toList_ofList]
  decide +kernel

theorem guest_exchange_allowing : ∃ out ptr packed allocated handed finished,
    Exchange allowing (encodeInput (fun n : ℕ => toString n) usersCall .null) out ptr packed allocated handed finished ∧
      decodeOutput readAllowing out = .ok (.continue_ ⟨[], []⟩) := by
  have hvalid : allowing.plugin.validate "pre" 0 = .ok () := by decide +kernel
  exact guest_exchange hvalid run_allowing

end Exchange

/-! ### What guests make of a request -/

/-- A header line that a message can carry: its name is one, and no byte of its value ends the line. -/
structure Carried (line : String × HeaderValue) : Prop where
  name : ∃ name, headerName name = some line.1
  value : headerValueFromBytes line.2 = some line.2

/-- Every line of a header map can be carried. -/
def WellFormed (headers : HeaderMap) : Prop := ∀ line ∈ headers, Carried line

/-- The answer is a response that HTTP has. -/
structure ProperAnswer (resp : Cors.Response) : Prop where
  status : 100 ≤ resp.status ∧ resp.status ≤ 599
  headers : WellFormed resp.headers

/-- What a plugin may make of a request. -/
def Proper : HookOutcome → Prop
  | .continue_ mutation => WellFormed mutation.setHeaders
  | .respond resp => ProperAnswer resp

section Headers

variable {headers : HeaderMap}

theorem WellFormed.remove (h : WellFormed headers) (name : String) : WellFormed (headers.remove name) :=
  fun line hline => h line (List.mem_filter.1 hline).1

theorem WellFormed.insert (h : WellFormed headers) {line : String × HeaderValue} (hline : Carried line) :
    WellFormed (headers.insert line.1 line.2) := by
  intro other hother
  rcases List.mem_append.1 hother with hkept | hnew
  · exact h.remove line.1 other hkept
  · obtain rfl := List.mem_singleton.1 hnew
    exact hline

theorem WellFormed.removeAll (h : WellFormed headers) (names : List String) :
    WellFormed (names.foldl HeaderMap.remove headers) := by
  induction names generalizing headers with
  | nil => exact h
  | cons name names ih => exact ih (h.remove name)

theorem WellFormed.insertAll (h : WellFormed headers) {lines : HeaderMap} (hlines : WellFormed lines) :
    WellFormed (lines.foldl (fun h p => h.insert p.1 p.2) headers) := by
  induction lines generalizing headers with
  | nil => exact h
  | cons line lines ih =>
    exact ih (h.insert (hlines line List.mem_cons_self)) fun other hother => hlines other (List.mem_cons_of_mem _ hother)

theorem WellFormed.apply (h : WellFormed headers) {m : Mutation} (hm : WellFormed m.setHeaders) :
    WellFormed (m.apply headers) :=
  (h.removeAll m.removeHeaders).insertAll hm

theorem carried_parseHeader {p : String × String} {line : String × HeaderValue} (h : parseHeader p = .ok line) :
    Carried line := by
  simp only [parseHeader, parseHeaderName, bind_eq_ok, okOr_eq_ok, pure_eq_ok] at h
  obtain ⟨name, hname, value, hvalue, rfl⟩ := h
  have hbytes : value = headerValue p.2 := headerValueFromBytes_eq_some hvalue
  exact ⟨⟨_, hname⟩, hbytes ▸ hvalue⟩

theorem wellFormed_parseHeaders {ps : List (String × String)} (h : ps.mapM parseHeader = .ok headers) :
    WellFormed headers := by
  intro line hline
  obtain ⟨p, -, hp⟩ := (mem_mapM h).1 hline
  exact carried_parseHeader hp

end Headers

section Run

variable [NatCast Num] {fromSlice : List UInt8 → Except String WireOutput} {d : Num → String}

theorem proper_outcome {output : WireOutput} {outcome : HookOutcome} (h : output.outcome = .ok outcome) :
    Proper outcome := by
  cases output with
  | continue_ setHeaders removeHeaders =>
    simp only [WireOutput.outcome, bind_eq_ok, pure_eq_ok] at h
    obtain ⟨headers, hheaders, _, -, rfl⟩ := h
    exact wellFormed_parseHeaders hheaders
  | respond response =>
    simp only [WireOutput.outcome, bind_eq_ok, ensure_eq_ok, pure_eq_ok, Bool.and_eq_true, decide_eq_true_eq] at h
    obtain ⟨_, hstatus, headers, hheaders, rfl⟩ := h
    exact ⟨hstatus, wellFormed_parseHeaders hheaders⟩

theorem proper_run {p : CompiledPlugin Num γ} {call : HookInvocation} {outcome : HookOutcome}
    (h : p.run fromSlice d call = .ok outcome) : Proper outcome := by
  simp only [CompiledPlugin.run, bind_eq_ok] at h
  obtain ⟨_, -, _, -, _, -, _, -, _, -, _, -, out, -, hdecode⟩ := h
  simp only [decodeOutput, bind_eq_ok] at hdecode
  obtain ⟨output, -, houtcome⟩ := hdecode
  exact proper_outcome houtcome

/-- A plugin of this host. -/
def Loaded (fromSlice : List UInt8 → Except String WireOutput) (d : Num → String) (exec : PluginExec) : Prop :=
  ∃ (γ : Type) (p : CompiledPlugin Num γ), exec = p.exec fromSlice d

theorem properAnswer_failed : ProperAnswer (jsonError 500 "plugin execution failed") where
  status := by decide
  headers := by
    intro line hline
    obtain rfl := List.mem_singleton.1 hline
    exact ⟨⟨"content-type", by decide⟩, by decide⟩

/-- **Guests inject nothing.** Whatever the guests of a slot do, a request goes on with header lines that can be
carried, and an answer is one that HTTP has. -/
theorem guests_inject_nothing {kind : HookKind} {apiId orgId : String} {plugins : List PluginExec} {req : Request}
    (hloaded : ∀ exec ∈ plugins, Loaded fromSlice d exec) (hreq : WellFormed req.headers) :
    (∀ req', runHooks kind apiId orgId plugins req = .ok req' → WellFormed req'.headers) ∧
      ∀ resp, runHooks kind apiId orgId plugins req = .error resp → ProperAnswer resp := by
  induction plugins generalizing req with
  | nil => exact ⟨fun req' h => Except.ok.inj h ▸ hreq, fun resp h => by cases h⟩
  | cons exec plugins ih =>
    obtain ⟨γ, p, rfl⟩ := hloaded exec List.mem_cons_self
    have hlater : ∀ exec ∈ plugins, Loaded fromSlice d exec := fun exec hexec =>
      hloaded exec (List.mem_cons_of_mem _ hexec)
    rw [runHooks]
    rcases hrun : (p.exec fromSlice d).run (invocation kind apiId orgId req) with reason | m | resp
    · refine ⟨fun req' h => (by cases h), fun resp h => ?_⟩
      obtain rfl := Except.error.inj h
      exact properAnswer_failed
    · have hm : WellFormed m.setHeaders := proper_run hrun
      exact ih hlater (hreq.apply hm)
    · have hresp : ProperAnswer resp := proper_run hrun
      refine ⟨fun req' h => (by cases h), fun resp' h => ?_⟩
      obtain rfl := Except.error.inj h
      exact hresp

/-- The output of a guest that replaces a header. -/
def tagOutput : List UInt8 :=
  Text.utf8 "\x7b\"action\":\"continue\",\"set_headers\":[[\"x-user\",\"42\"]],\"remove_headers\":[\"x-internal\"]\x7d"

/-- That of one that answers. -/
def denyOutput : List UInt8 :=
  Text.utf8 "\x7b\"action\":\"respond\",\"response\":\x7b\"status\":403,\"headers\":[[\"x-reason\",\"blocked\"]]\x7d\x7d"

/-- The two guests. -/
def tagging : CompiledPlugin ℕ Unit := verbatim "tag" tagOutput (by rw [tagOutput, Text.utf8_ofList]; decide +kernel)

def denying : CompiledPlugin ℕ Unit := verbatim "deny" denyOutput (by rw [denyOutput, Text.utf8_ofList]; decide +kernel)

/-- What serde reads from their outputs. -/
def readOutputs (bytes : List UInt8) : Except String WireOutput :=
  if bytes = tagOutput then .ok (.continue_ [("x-user", "42")] ["x-internal"])
  else if bytes = denyOutput then .ok (.respond ⟨403, [("x-reason", "blocked")], ""⟩)
  else .error "expected value at line 1 column 1"

/-- A request with the header that is replaced. -/
def internalRequest : Request := { headers := [("host", headerValue "example.com"), ("x-internal", headerValue "1")] }

/-- The request as the first of them lets it go on. -/
def taggedRequest : Request := { headers := [("host", headerValue "example.com"), ("x-user", headerValue "42")] }

theorem denyOutput_ne_tagOutput : denyOutput ≠ tagOutput := Text.utf8_injective.ne (by decide +kernel)

theorem run_tagging : (tagging.exec readOutputs fun n => toString n).run
    (invocation .pre "users" "default" internalRequest) = .ok (.continue_ ⟨[("x-user", headerValue "42")], ["x-internal"]⟩) := by
  refine (run_verbatim _ ?_).trans ?_
  · simp only [encodeInput, Json.toText, Text.utf8_ofList]
    decide +kernel
  · rw [decodeOutput, readOutputs, if_pos rfl]
    decide +kernel

theorem run_denying : (denying.exec readOutputs fun n => toString n).run
    (invocation .pre "users" "default" taggedRequest) = .ok (.respond ⟨403, [("x-reason", headerValue "blocked")], []⟩) := by
  refine (run_verbatim _ ?_).trans ?_
  · simp only [encodeInput, Json.toText, Text.utf8_ofList]
    decide +kernel
  · rw [decodeOutput, readOutputs, if_neg denyOutput_ne_tagOutput, if_pos rfl]
    decide +kernel

theorem runHooks_tagging (rest : List PluginExec) :
    runHooks .pre "users" "default" (tagging.exec readOutputs (fun n => toString n) :: rest) internalRequest =
      runHooks .pre "users" "default" rest taggedRequest := by
  rw [runHooks, run_tagging]
  rfl

theorem runHooks_denying :
    runHooks .pre "users" "default" [denying.exec readOutputs fun n => toString n] taggedRequest =
      .error ⟨403, [("x-reason", headerValue "blocked")], []⟩ := by
  rw [runHooks, run_denying]

/-- The one lets the request go on with its header in the place of another, the other answers it. -/
theorem guests_inject_nothing_denying : (∃ req',
      runHooks .pre "users" "default" [tagging.exec readOutputs fun n => toString n] internalRequest = .ok req' ∧
        req'.headers = taggedRequest.headers ∧ WellFormed req'.headers) ∧
    ∃ resp, runHooks .pre "users" "default"
        [tagging.exec readOutputs fun n => toString n, denying.exec readOutputs fun n => toString n] internalRequest =
          .error resp ∧ resp.headers = [("x-reason", headerValue "blocked")] ∧ ProperAnswer resp := by
  have hreq : WellFormed internalRequest.headers := by
    intro line hline
    rcases List.mem_pair.1 hline with rfl | rfl
    · exact ⟨⟨"host", by decide⟩, by decide⟩
    · exact ⟨⟨"x-internal", by decide⟩, by decide⟩
  have htagging : Loaded readOutputs (fun n : ℕ => toString n) (tagging.exec readOutputs fun n => toString n) :=
    ⟨Unit, tagging, rfl⟩
  have hdenying : Loaded readOutputs (fun n : ℕ => toString n) (denying.exec readOutputs fun n => toString n) :=
    ⟨Unit, denying, rfl⟩
  have hgoes := runHooks_tagging []
  have hanswers := (runHooks_tagging [denying.exec readOutputs fun n => toString n]).trans runHooks_denying
  refine ⟨⟨_, hgoes, rfl, ?_⟩, _, hanswers, rfl, ?_⟩
  · exact (guests_inject_nothing (List.forall_mem_singleton.2 htagging) hreq).1 _ hgoes
  · exact (guests_inject_nothing (List.forall_mem_cons.2 ⟨htagging, List.forall_mem_singleton.2 hdenying⟩) hreq).2 _
      hanswers

end Run

end G2way.Middleware.Guest
