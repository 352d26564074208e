import G2way.Proxy.Headers

/-!
# The chain of addresses

`prepare_upstream_headers` of `g2-proxy/src/rewrite.rs` removes what is
connection-local and tells the upstream where a request came from: "An existing
`X-Forwarded-For` chain is extended with `client_ip`".

## The model

A header may come on several lines, and a line may hold any bytes. The pieces of a
value are what stands between its commas, without blanks and tabs around it: the
addresses of an `X-Forwarded-For` line are its pieces, and the headers a
`Connection` line names are those of its pieces that are header names. Both are
read off the bytes, whether or not the value is text. The client's address is the
text of an IP address (`IpText`).

## What is proved

The code reads the first `X-Forwarded-For` line only, and only if it is text; it
passes over `Connection` lines that are not text. `keeps_chain_iff` says that these
are the only ways the chain or a connection-local header is mishandled.
-/

namespace G2way.Proxy

open G2way.Core G2way.Lib

/-! ### Values as lists -/

/-- Without blanks and tabs at its ends. -/
def trimBlanks (l : List Char) : List Char :=
  (((l.dropWhile fun c => c = ' ' || c = '\t').reverse).dropWhile fun c => c = ' ' || c = '\t').reverse

/-- The pieces of a value between its commas. -/
def pieces (v : HeaderValue) : List (List Char) := (v.chars.splitOn ',').map trimBlanks

/-- The addresses of a line of `X-Forwarded-For`. -/
def addresses (v : HeaderValue) : List (List Char) := (pieces v).filter (· ≠ [])

/-- A `Connection` line names the header. -/
def Named (headers : HeaderMap) (name : String) : Prop :=
  ∃ v ∈ headers.getAll "connection", ∃ piece ∈ pieces v, headerName (String.ofList piece) = some name

/-- The text of an IP address. -/
structure IpText where
  text : String
  ne_empty : text ≠ ""
  chars : ∀ ch ∈ text.toList, ch.isAlphanum ∨ ch = '.' ∨ ch = ':'

/-- The headers `apply_forwarded_headers` sets. -/
def forwardedHeaders : List String := ["x-forwarded-for", "x-forwarded-host", "x-forwarded-proto"]

/-! ### The law -/

/-- What the upstream should get of the headers of a request. -/
structure KeepsChain (headers : HeaderMap) (target : UpstreamTarget) (clientIp : IpText) (tls : Bool) : Prop where
  /-- All the addresses of the request in order, and the client's. -/
  chain : ¬ Named headers "x-forwarded-for" →
    ((prepareUpstreamHeaders headers target clientIp.text tls).getAll "x-forwarded-for").flatMap addresses =
      (headers.getAll "x-forwarded-for").flatMap addresses ++ [clientIp.text.toList]
  /-- Only the client's, where the connection's own headers include the chain. -/
  dropped : Named headers "x-forwarded-for" →
    ((prepareUpstreamHeaders headers target clientIp.text tls).getAll "x-forwarded-for").flatMap addresses =
      [clientIp.text.toList]
  hopByHop : ∀ name ∈ hopByHop, (prepareUpstreamHeaders headers target clientIp.text tls).getAll name = []
  named : ∀ name, Named headers name → name ∉ forwardedHeaders →
    (prepareUpstreamHeaders headers target clientIp.text tls).getAll name = []
  others : ∀ name, name ∉ Core.hopByHop → ¬ Named headers name → name ≠ "host" → name ∉ forwardedHeaders →
    (prepareUpstreamHeaders headers target clientIp.text tls).getAll name = headers.getAll name

/-- No line the code passes over says anything: there are no addresses behind the first `X-Forwarded-For` line,
that line is text if it has one, and a `Connection` line that is not text names nothing that would be sent. -/
structure NothingUnread (headers : HeaderMap) (target : UpstreamTarget) : Prop where
  chain : ¬ Named headers "x-forwarded-for" →
    (∀ v ∈ (headers.getAll "x-forwarded-for").tail, addresses v = []) ∧
      ∀ v ∈ (headers.getAll "x-forwarded-for").head?, addresses v ≠ [] → v.toStr.isSome
  dropped : Named headers "x-forwarded-for" → "x-forwarded-for" ∉ connectionNames headers →
    ∀ v ∈ (headers.getAll "x-forwarded-for").head?, v.toStr.isSome → addresses v = []
  named : ∀ name, Named headers name → name ∉ connectionNames headers → name ∉ forwardedHeaders →
    name ∈ hopByHop ∨ (name = "host" ∧ target.preserveHostHeader = false) ∨ headers.getAll name = []

/-! ### What the code reads -/

/-- In text, blanks and tabs are the only whitespace. -/
theorem trim_visible {l : List Char} (h : ∀ ch ∈ l, (32 ≤ ch.toNat ∧ ch.toNat < 127) ∨ ch.toNat = 9) :
    (Text.trim (String.ofList l)).toList = trimBlanks l := by
  have hsame : ∀ ch, ((32 ≤ ch.toNat ∧ ch.toNat < 127) ∨ ch.toNat = 9) →
      Text.isWhitespace ch = (ch = ' ' || ch = '\t') := by
    intro ch hch
    have hspace : ch = ' ' ↔ ch.toNat = 32 := ⟨fun heq => heq ▸ rfl, fun heq => Char.toNat_inj.1 heq⟩
    have htab : ch = '\t' ↔ ch.toNat = 9 := ⟨fun heq => heq ▸ rfl, fun heq => Char.toNat_inj.1 heq⟩
    simp only [Text.isWhitespace, hspace, htab]
    rw [Bool.eq_iff_iff]
    simp only [Bool.or_eq_true, Bool.and_eq_true, decide_eq_true_eq, beq_iff_eq]
    omega
  have hdrop : ∀ m : List Char, (∀ ch ∈ m, (32 ≤ ch.toNat ∧ ch.toNat < 127) ∨ ch.toNat = 9) →
      m.dropWhile Text.isWhitespace = m.dropWhile fun c => c = ' ' || c = '\t' := by
    intro m hm
    induction m with
    | nil => rfl
    | cons ch m ih =>
      obtain ⟨hch, hm⟩ := List.forall_mem_cons.1 hm
      rw [List.dropWhile_cons, List.dropWhile_cons, hsame ch hch, ih hm]
  rw [Text.trim, Text.trimEnd, Text.trimStart, String.toList_ofList, String.toList_ofList, String.toList_ofList, trimBlanks,
    hdrop l h, hdrop]
  intro ch hch
  exact h ch ((List.dropWhile_sublist _).mem (List.mem_reverse.1 hch))

/-- The pieces of text are what it splits into. -/
theorem pieces_of_toStr {v : HeaderValue} {s : String} (h : v.toStr = some s) :
    pieces v = (Text.split ',' s).map fun piece => (Text.trim piece).toList := by
  rw [pieces, Text.split, List.map_map, chars_of_toStr h]
  refine List.map_congr_left fun l hl => ?_
  exact (trim_visible fun ch hch => visible_of_toStr h ch (Text.mem_of_mem_splitOn hl hch)).symm

/-- The code reads the names of the `Connection` lines that are text. -/
theorem mem_connectionNames {headers : HeaderMap} {name : String} :
    name ∈ connectionNames headers ↔
      ∃ v ∈ headers.getAll "connection", v.toStr.isSome ∧
        ∃ piece ∈ pieces v, headerName (String.ofList piece) = some name := by
  simp only [connectionNames, List.mem_flatMap, List.mem_filterMap]
  constructor
  · rintro ⟨s, ⟨v, hv, hs⟩, t, ht, hname⟩
    refine ⟨v, hv, by simp [hs], (Text.trim t).toList, ?_, by rwa [String.ofList_toList]⟩
    rw [pieces_of_toStr hs]
    exact List.mem_map_of_mem ht
  · rintro ⟨v, hv, hsome, piece, hpiece, hname⟩
    obtain ⟨s, hs⟩ := Option.isSome_iff_exists.1 hsome
    rw [pieces_of_toStr hs] at hpiece
    obtain ⟨t, ht, rfl⟩ := List.mem_map.1 hpiece
    rw [String.ofList_toList] at hname
    exact ⟨s, ⟨v, hv, hs⟩, t, ht, hname⟩

theorem named_of_mem {headers : HeaderMap} {name : String} (h : name ∈ connectionNames headers) : Named headers name := by
  obtain ⟨v, hv, -, hpiece⟩ := mem_connectionNames.1 h
  exact ⟨v, hv, hpiece⟩

/-! ### The chain -/

theorem IpText.code (ip : IpText) {ch : Char} (hch : ch ∈ ip.text.toList) : 46 ≤ ch.toNat ∧ ch.toNat < 128 := by
  rcases ip.chars ch hch with halnum | rfl | rfl
  · have hcode := Text.toNat_of_isAlphanum halnum
    omega
  · decide
  · decide

/-- An address has no blanks around it. -/
theorem IpText.trimBlanks_text (ip : IpText) : trimBlanks ip.text.toList = ip.text.toList := by
  have hdrop : ∀ l : List Char, (∀ ch ∈ l, 46 ≤ ch.toNat) → (l.dropWhile fun c => c = ' ' || c = '\t') = l := by
    intro l hl
    cases l with
    | nil => rfl
    | cons ch l =>
      have hcode := hl ch List.mem_cons_self
      apply List.dropWhile_cons_of_neg
      simp only [Bool.or_eq_true, decide_eq_true_eq]
      rintro (rfl | rfl)
      · exact absurd hcode (by decide)
      · exact absurd hcode (by decide)
  have hcode : ∀ ch ∈ ip.text.toList, 46 ≤ ch.toNat := fun ch hch => (ip.code hch).1
  rw [trimBlanks, hdrop _ hcode, hdrop _ fun ch hch => hcode ch (List.mem_reverse.1 hch), List.reverse_reverse]

theorem trimBlanks_space (l : List Char) : trimBlanks (' ' :: l) = trimBlanks l := rfl

theorem IpText.comma_not_mem (ip : IpText) : ',' ∉ ip.text.toList := by
  intro hmem
  exact absurd (ip.code hmem).1 (by decide)

theorem addresses_headerValue {s : String} (h : ∀ ch ∈ s.toList, ch.toNat < 128) :
    addresses (headerValue s) = ((s.toList.splitOn ',').map trimBlanks).filter (· ≠ []) := by
  rw [addresses, pieces, chars_headerValue h]

/-- The addresses of the line the code sends: those of the line it read, and the client's. -/
theorem addresses_forwardedChain (headers : HeaderMap) (ip : IpText) :
    addresses (headerValue (forwardedChain headers ip.text)) =
      ((headers.get "x-forwarded-for").filter fun v => v.toStr.isSome).toList.flatMap addresses ++ [ip.text.toList] := by
  have hascii : ∀ ch ∈ ip.text.toList, ch.toNat < 128 := fun ch hch => (ip.code hch).2
  have halone : addresses (headerValue ip.text) = [ip.text.toList] := by
    rw [addresses_headerValue hascii, List.splitOn_eq_singleton ip.comma_not_mem, List.map_singleton, ip.trimBlanks_text]
    simp [ip.ne_empty]
  cases hstr : headers.getStr "x-forwarded-for" with
  | none =>
    have hunread : (headers.get "x-forwarded-for").filter (fun v => v.toStr.isSome) = none := by
      cases hget : headers.get "x-forwarded-for" with
      | none => rfl
      | some v =>
        have hv : v.toStr = none := by simpa [HeaderMap.getStr, hget] using hstr
        simp [hv]
    rw [forwardedChain, hstr, hunread]
    exact halone
  | some s =>
    obtain ⟨v, hget, hs⟩ := Option.bind_eq_some_iff.1 hstr
    have hread : (headers.get "x-forwarded-for").filter (fun v => v.toStr.isSome) = some v := by
      simp [hget, hs]
    have hv : s.toList = v.chars := chars_of_toStr hs
    have hchain : (s ++ ", " ++ ip.text).toList = v.chars ++ ',' :: ' ' :: ip.text.toList := by
      simp [String.toList_append, hv]
    have hcode : ∀ ch ∈ (s ++ ", " ++ ip.text).toList, ch.toNat < 128 := by
      rw [hchain]
      intro ch hch
      simp only [List.mem_append, List.mem_cons] at hch
      rcases hch with hch | rfl | rfl | hch
      · have hvisible := visible_of_toStr hs ch hch
        omega
      · decide
      · decide
      · exact hascii ch hch
    have hcomma : ',' ∉ ' ' :: ip.text.toList := by
      simp [ip.comma_not_mem]
    rw [forwardedChain, hstr, hread]
    simp only [Option.toList_some, List.flatMap_singleton]
    rw [addresses_headerValue hcode, hchain, List.splitOn_append_cons_self, List.splitOn_eq_singleton hcomma,
      List.map_append, List.map_singleton, trimBlanks_space, ip.trimBlanks_text, List.filter_append, addresses, pieces]
    simp [ip.ne_empty]

/-! ### What is sent -/

section Sent

variable {headers : HeaderMap} {target : UpstreamTarget} {clientIp : String} {tls : Bool} {name : String}

/-- The headers the last step starts from. -/
theorem getAll_kept : (if target.preserveHostHeader then stripHopByHopHeaders headers
      else (stripHopByHopHeaders headers).remove "host").getAll name =
    if name ∈ hopByHop ∨ name ∈ connectionNames headers ∨ (name = "host" ∧ target.preserveHostHeader = false) then []
    else headers.getAll name := by
  have hstrip : (stripHopByHopHeaders headers).getAll name =
      if name ∈ hopByHop ∨ name ∈ connectionNames headers then [] else headers.getAll name := by
    have heq : stripHopByHopHeaders headers = (connectionNames headers ++ hopByHop).foldl HeaderMap.remove headers := rfl
    rw [heq, HeaderMap.getAll_foldl_remove]
    by_cases hhop : name ∈ hopByHop
    · simp [hhop]
    · simp [hhop]
  cases hpreserve : target.preserveHostHeader with
  | true =>
    simp only [if_true, hstrip, and_false, or_false, Bool.true_eq_false]
  | false =>
    simp only [Bool.false_eq_true, if_false, HeaderMap.getAll_remove, hstrip, and_true]
    by_cases hhost : name = "host"
    · simp [hhost]
    · simp [hhost]

/-- A header that is not set anew goes out unless it is removed. -/
theorem getAll_prepared (hname : name ∉ forwardedHeaders) :
    (prepareUpstreamHeaders headers target clientIp tls).getAll name =
      if name ∈ hopByHop ∨ name ∈ connectionNames headers ∨ (name = "host" ∧ target.preserveHostHeader = false) then []
      else headers.getAll name := by
  have hnone : forwardedValue (headers.get "host") tls name = none := by
    simp only [forwardedHeaders, List.mem_cons, List.not_mem_nil, or_false, not_or] at hname
    rw [forwardedValue, if_neg hname.2.2, if_neg hname.2.1]
  have hfor : name ≠ "x-forwarded-for" := fun heq => hname (by simp [heq, forwardedHeaders])
  rw [prepareUpstreamHeaders, getAll_applyForwardedHeaders _ _ _ _ hfor, hnone, getAll_kept]
  split_ifs with hremoved hnil hnil
  · rfl
  · rfl
  · exact hnil.symm
  · rfl

/-- The addresses the code reads: those of the first line, if it is text. -/
def readAddresses (headers : HeaderMap) : List (List Char) :=
  ((headers.getAll "x-forwarded-for").head?.filter fun v => v.toStr.isSome).toList.flatMap addresses

/-- What the upstream gets of the chain. -/
theorem addresses_prepared (ip : IpText) :
    ((prepareUpstreamHeaders headers target ip.text tls).getAll "x-forwarded-for").flatMap addresses =
      (if "x-forwarded-for" ∈ connectionNames headers then [] else readAddresses headers) ++ [ip.text.toList] := by
  have hhop : "x-forwarded-for" ∉ hopByHop := by decide
  rw [prepareUpstreamHeaders, getAll_forwardedFor, List.flatMap_singleton, addresses_forwardedChain,
    HeaderMap.get_eq_head?_getAll, getAll_kept]
  by_cases hnamed : "x-forwarded-for" ∈ connectionNames headers
  · simp [hnamed]
  · simp [hnamed, hhop, readAddresses]

/-- The code reads all the addresses there are if it reads the line they are on. -/
theorem readAddresses_eq_iff : readAddresses headers = (headers.getAll "x-forwarded-for").flatMap addresses ↔
    (∀ v ∈ (headers.getAll "x-forwarded-for").tail, addresses v = []) ∧
      ∀ v ∈ (headers.getAll "x-forwarded-for").head?, addresses v ≠ [] → v.toStr.isSome := by
  unfold readAddresses
  cases headers.getAll "x-forwarded-for" with
  | nil => simp
  | cons v vs =>
    cases hread : v.toStr with
    | none =>
      simp only [List.head?_cons, Option.filter_some, hread, Option.isSome_none, Bool.false_eq_true, if_false,
        Option.toList_none, List.flatMap_nil, List.flatMap_cons, List.nil_eq, List.append_eq_nil_iff, List.flatMap_eq_nil_iff,
        List.tail_cons, Option.mem_def, Option.some.injEq, forall_eq', imp_false, not_not]
      exact and_comm
    | some s =>
      simp only [List.head?_cons, Option.filter_some, hread, Option.isSome_some, if_true, Option.toList_some,
        List.flatMap_nil, List.flatMap_cons, List.append_cancel_left_eq, List.tail_cons, Option.mem_def, Option.some.injEq,
        forall_eq', implies_true, and_true]
      rw [eq_comm, List.flatMap_eq_nil_iff]

/-- It reads none if the line it reads has none. -/
theorem readAddresses_eq_nil_iff : readAddresses headers = [] ↔
    ∀ v ∈ (headers.getAll "x-forwarded-for").head?, v.toStr.isSome → addresses v = [] := by
  unfold readAddresses
  cases (headers.getAll "x-forwarded-for").head? with
  | none => simp
  | some v =>
    cases hread : v.toStr with
    | none => simp [hread]
    | some s => simp [hread]

end Sent

/-- **The chain is kept** exactly where no line that the code passes over says anything. -/
theorem keeps_chain_iff (headers : HeaderMap) (target : UpstreamTarget) (clientIp : IpText) (tls : Bool) :
    KeepsChain headers target clientIp tls ↔ NothingUnread headers target := by
  constructor
  · rintro ⟨hchain, hdropped, -, hnamed, -⟩
    refine ⟨fun hnot => ?_, fun hyes hunread => ?_, fun name hname hunread hother => ?_⟩
    · have hsent := hchain hnot
      rw [addresses_prepared, if_neg fun hmem => hnot (named_of_mem hmem), List.append_cancel_right_eq] at hsent
      exact readAddresses_eq_iff.1 hsent
    · have hsent := hdropped hyes
      rw [addresses_prepared, if_neg hunread, List.append_left_eq_self] at hsent
      exact readAddresses_eq_nil_iff.1 hsent
    · have hsent := hnamed name hname hother
      rw [getAll_prepared hother] at hsent
      split_ifs at hsent with hremoved
      · rcases hremoved with hhop | hmem | hhost
        · exact .inl hhop
        · exact absurd hmem hunread
        · exact .inr (.inl hhost)
      · exact .inr (.inr hsent)
  · rintro ⟨hchain, hdropped, hnamed⟩
    refine ⟨fun hnot => ?_, fun hyes => ?_, fun name hhop => ?_, fun name hname hother => ?_,
      fun name hhop hnot hhost hother => ?_⟩
    · rw [addresses_prepared, if_neg fun hmem => hnot (named_of_mem hmem), readAddresses_eq_iff.2 (hchain hnot)]
    · rw [addresses_prepared]
      split_ifs with hmem
      · rfl
      · rw [readAddresses_eq_nil_iff.2 (hdropped hyes hmem), List.nil_append]
    · have hdisjoint : ∀ x ∈ hopByHop, x ∉ forwardedHeaders := by decide
      rw [getAll_prepared (hdisjoint name hhop), if_pos (.inl hhop)]
    · rw [getAll_prepared hother]
      by_cases hmem : name ∈ connectionNames headers
      · rw [if_pos (.inr (.inl hmem))]
      · split_ifs with hremoved
        · rfl
        · push Not at hremoved
          rcases hnamed name hname hmem hother with hhop | hhost | hnil
          · exact absurd hhop hremoved.1
          · exact absurd hhost.2 (hremoved.2.2 hhost.1)
          · exact hnil
    · rw [getAll_prepared hother, if_neg]
      rintro (hmem | hmem | ⟨heq, -⟩)
      · exact hhop hmem
      · exact hnot (named_of_mem hmem)
      · exact hhost heq

/-- A chain on two lines. -/
def twoLines : HeaderMap :=
  [("x-forwarded-for", headerValue "10.0.0.1"), ("x-forwarded-for", headerValue "10.0.0.2")]

/-- The client's address. -/
def sampleIp : IpText := ⟨"10.0.0.3", by decide, by simp⟩

/-- A target with nothing switched on. -/
def plainTarget : UpstreamTarget := ⟨"orders", false, none, 0, false, false⟩

/-- The second line of a chain is lost. -/
theorem second_line_lost : ¬ KeepsChain twoLines plainTarget sampleIp false := by
  intro h
  have hnot : ¬ Named twoLines "x-forwarded-for" := by
    have hnone : twoLines.getAll "connection" = [] := by decide +kernel
    rintro ⟨v, hv, -⟩
    rw [hnone] at hv
    cases hv
  have hsent := h.chain hnot
  rw [addresses_prepared] at hsent
  exact absurd (congrArg List.length hsent) (by decide +kernel)

end G2way.Proxy
