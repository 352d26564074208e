import G2way.Core.ApiDefinition
import G2way.Lib.IpAddr

/-!
# IP lists

`g2-middleware/src/ip_filter.rs` and `parse_ip_entry` of `g2-core/src/security.rs`:
"`block_ips` wins unconditionally, and a non-empty `allow_ips` makes the API
allow-list-only". "IPv4-mapped IPv6 peers are canonicalized before matching, so IPv4
rules match them."

## The model

An entry is a CIDR network, which the `ipnet` crate reads, or a plain address, which
`IpAddr.fromStr` does. The lists of a filter are networks as the entries have them;
only the peer is canonicalized.

## What is proved

In the specification an IPv4 address and its mapped form are one host, as a peer and
in an entry (`Rejected`). The filter keeps to it but for IPv4 hosts that an entry in
IPv6 notation covers, and `permits_iff_spec_iff` says exactly when it does. A blocked
`::ffff:10.0.0.5` blocks nobody (`mapped_block_void`).
-/

namespace G2way.Middleware.IpFilter

open G2way.Core G2way.Lib G2way.Lib.Result

/-- `parse_ip_entry`, with `IpNet::from_str` of the crate. -/
def parseIpEntry (ipnet : String → Option IpNet) (entry : String) : Option IpNet :=
  match ipnet entry with
  | some net => some net
  | none => (IpAddr.fromStr entry).map IpNet.ofAddr

/-- `FilterState`. -/
structure FilterState where
  allow : List IpNet
  block : List IpNet
  deriving DecidableEq, Repr

/-- `parse_list`. -/
def parseList (ipnet : String → Option IpNet) (apiId field : String) (list : List String) :
    Except InvalidApiDefinition (List IpNet) :=
  list.mapM fun entry =>
    okOr (parseIpEntry ipnet entry) ⟨apiId, "`" ++ field ++ "` entry is not an IP or CIDR: `" ++ entry ++ "`"⟩

/-- `IpFilterLayer::from_config`. -/
def fromConfig (ipnet : String → Option IpNet) (allow block : List String) (apiId : String) :
    Except InvalidApiDefinition (Option FilterState) :=
  if allow.isEmpty && block.isEmpty then .ok none
  else do
    let allow ← parseList ipnet apiId "allow_ips" allow
    let block ← parseList ipnet apiId "block_ips" block
    return some ⟨allow, block⟩

/-- An entry of the list contains the address. -/
def covers (nets : List IpNet) (ip : IpAddr) : Bool := nets.any fun net => net.contains ip

/-- `IpFilter::permits`. -/
def FilterState.permits (st : FilterState) (ip : IpAddr) : Bool :=
  let ip := ip.toCanonical
  if covers st.block ip then false else st.allow.isEmpty || covers st.allow ip

/-! ### The specification -/

/-- A network contains a host: some address of it. -/
def ContainsHost (net : IpNet) (ip : IpAddr) : Prop := ∃ ip', IpAddr.SameHost ip ip' ∧ net.contains ip' = true

/-- An entry contains a host. -/
def EntryContains (ipnet : String → Option IpNet) (ip : IpAddr) (entry : String) : Prop :=
  ∃ net, parseIpEntry ipnet entry = some net ∧ ContainsHost net ip

/-- A host is rejected if a block entry contains it, or no entry of an allow list does. -/
def Rejected (ipnet : String → Option IpNet) (allow block : List String) (ip : IpAddr) : Prop :=
  (∃ entry ∈ block, EntryContains ipnet ip entry) ∨ allow ≠ [] ∧ ¬ ∃ entry ∈ allow, EntryContains ipnet ip entry

/-- Nothing hangs on an IPv6 entry that covers the mapped form of an IPv4 host: an IPv4 entry blocks
the host anyway; or, where an IPv6 entry would block it, the allow list does not admit it, and where none
would, the allow list admits it anyway or has no IPv6 entry that would. -/
def NoMappedEntryDecides (st : FilterState) : IpAddr → Prop
  | .v6 _ => True
  | .v4 a =>
    covers st.block (.v4 a) = true ∨
      if covers st.block (.v6 (IpAddr.mapped a)) then st.allow ≠ [] ∧ covers st.allow (.v4 a) = false
      else st.allow = [] ∨ covers st.allow (.v4 a) = true ∨ covers st.allow (.v6 (IpAddr.mapped a)) = false

section

variable {ip : IpAddr} {nets : List IpNet}

/-- The addresses of an IPv4 host are its two notations. -/
theorem exists_containsHost_v4 {a : BitVec 32} (h : ip.toCanonical = .v4 a) :
    (∃ net ∈ nets, ContainsHost net ip) ↔
      covers nets (.v4 a) = true ∨ covers nets (.v6 (IpAddr.mapped a)) = true := by
  have hhost (net : IpNet) : ContainsHost net ip ↔
      net.contains (.v4 a) = true ∨ net.contains (.v6 (IpAddr.mapped a)) = true := by
    constructor
    · rintro ⟨ip', hsame, hin⟩
      rw [IpAddr.sameHost_iff, h] at hsame
      rcases IpAddr.toCanonical_cases ip' with ⟨b, hb, hcanon⟩ | ⟨b, -, hcanon⟩
      · obtain rfl : a = b := IpAddr.v4.inj (hsame.trans hcanon)
        rcases hb with rfl | rfl
        · exact .inl hin
        · exact .inr hin
      · cases hsame.trans hcanon
    · rintro (hin | hin)
      · exact ⟨.v4 a, IpAddr.sameHost_iff.mpr h, hin⟩
      · exact ⟨_, IpAddr.sameHost_iff.mpr (h.trans (IpAddr.toCanonical_mapped a).symm), hin⟩
  simp only [hhost, covers, List.any_eq_true, ← exists_or, and_or_left]

/-- Another host has one address. -/
theorem exists_containsHost_v6 {b : BitVec 128} (h : ip.toCanonical = .v6 b) :
    (∃ net ∈ nets, ContainsHost net ip) ↔ covers nets (.v6 b) = true := by
  have hhost (net : IpNet) : ContainsHost net ip ↔ net.contains (.v6 b) = true := by
    rcases IpAddr.toCanonical_cases ip with ⟨a, -, hcanon⟩ | ⟨b', rfl, hcanon⟩
    · cases h.symm.trans hcanon
    · obtain rfl : b = b' := IpAddr.v6.inj (h.symm.trans hcanon)
      constructor
      · rintro ⟨ip', hsame, hin⟩
        rw [IpAddr.sameHost_iff, h] at hsame
        rcases IpAddr.toCanonical_cases ip' with ⟨a, -, hcanon'⟩ | ⟨b', rfl, hcanon'⟩
        · cases hsame.trans hcanon'
        · rwa [IpAddr.v6.inj (hsame.trans hcanon')]
      · intro hin
        exact ⟨_, .refl _, hin⟩
  simp only [hhost, covers, List.any_eq_true]

end

theorem permits_eq_true_iff {st : FilterState} {ip : IpAddr} :
    st.permits ip = true ↔
      covers st.block ip.toCanonical = false ∧ (st.allow = [] ∨ covers st.allow ip.toCanonical = true) := by
  unfold FilterState.permits
  cases hblock : covers st.block ip.toCanonical <;> simp [hblock]

/-- The networks of the filter, against its lists: the filter and the specification agree exactly when
no mapped entry decides. -/
theorem agree_iff (st : FilterState) (ip : IpAddr) :
    (st.permits ip = true ↔ ¬ ((∃ net ∈ st.block, ContainsHost net ip) ∨
        st.allow ≠ [] ∧ ¬ ∃ net ∈ st.allow, ContainsHost net ip)) ↔
      NoMappedEntryDecides st ip.toCanonical := by
  rw [permits_eq_true_iff]
  cases hcanon : ip.toCanonical with
  | v4 a =>
    rw [exists_containsHost_v4 hcanon, exists_containsHost_v4 hcanon, NoMappedEntryDecides]
    cases covers st.block (.v4 a) with
    | true => simp
    | false =>
      cases covers st.block (.v6 (IpAddr.mapped a)) with
      | true => cases covers st.allow (.v4 a) <;> simp
      | false => cases covers st.allow (.v4 a) <;> cases covers st.allow (.v6 (IpAddr.mapped a)) <;> simp
  | v6 b =>
    rw [exists_containsHost_v6 hcanon, exists_containsHost_v6 hcanon, NoMappedEntryDecides, iff_true]
    cases covers st.block (.v6 b) <;> cases covers st.allow (.v6 b) <;> simp

/-! ### The layer -/

section

variable {ipnet : String → Option IpNet} {apiId field : String} {list : List String}

/-- A list whose entries are accepted is read. -/
theorem exists_parseList (apiId field : String) (h : ∀ entry ∈ list, (parseIpEntry ipnet entry).isSome = true) :
    ∃ nets, parseList ipnet apiId field list = .ok nets := by
  rw [parseList, exists_mapM_eq_ok]
  intro entry hentry
  obtain ⟨net, hnet⟩ := Option.isSome_iff_exists.mp (h entry hentry)
  exact ⟨net, okOr_eq_ok.mpr hnet⟩

/-- Its networks contain what its entries do. -/
theorem exists_containsHost_parseList {nets : List IpNet} (h : parseList ipnet apiId field list = .ok nets)
    (ip : IpAddr) : (∃ net ∈ nets, ContainsHost net ip) ↔ ∃ entry ∈ list, EntryContains ipnet ip entry := by
  constructor
  · rintro ⟨net, hnet, hhost⟩
    obtain ⟨entry, hentry, hread⟩ := (mem_mapM h).mp hnet
    exact ⟨entry, hentry, net, okOr_eq_ok.mp hread, hhost⟩
  · rintro ⟨entry, hentry, net, hread, hhost⟩
    exact ⟨net, (mem_mapM h).mpr ⟨entry, hentry, okOr_eq_ok.mpr hread⟩, hhost⟩

theorem parseList_eq_nil {nets : List IpNet} (h : parseList ipnet apiId field list = .ok nets) :
    nets = [] ↔ list = [] := by
  rw [← List.length_eq_zero_iff, ← List.length_eq_zero_iff, (mapM_eq_ok.mp h).length_eq]

end

/-- **When the filter keeps to the specification**: the lists whose entries are accepted make a
filter, and it permits the hosts that the specification does exactly when no mapped entry decides. -/
theorem permits_iff_spec_iff {ipnet : String → Option IpNet} {allow block : List String}
    (hallow : ∀ entry ∈ allow, (parseIpEntry ipnet entry).isSome = true)
    (hblock : ∀ entry ∈ block, (parseIpEntry ipnet entry).isSome = true) (hne : allow ≠ [] ∨ block ≠ [])
    (apiId : String) :
    ∃ st, fromConfig ipnet allow block apiId = .ok (some st) ∧
      ∀ ip, (st.permits ip = true ↔ ¬ Rejected ipnet allow block ip) ↔ NoMappedEntryDecides st ip.toCanonical := by
  obtain ⟨allowNets, hallowNets⟩ := exists_parseList apiId "allow_ips" hallow
  obtain ⟨blockNets, hblockNets⟩ := exists_parseList apiId "block_ips" hblock
  have hsome : (allow.isEmpty && block.isEmpty) = false := by
    rw [Bool.and_eq_false_iff, List.isEmpty_eq_false_iff, List.isEmpty_eq_false_iff]
    exact hne
  refine ⟨⟨allowNets, blockNets⟩, ?_, fun ip => ?_⟩
  · rw [fromConfig, hsome, if_neg Bool.false_ne_true, hallowNets, hblockNets]
    rfl
  · have hnil : allowNets ≠ [] ↔ allow ≠ [] := not_congr (parseList_eq_nil hallowNets)
    rw [Rejected, ← exists_containsHost_parseList hallowNets, ← exists_containsHost_parseList hblockNets, ← hnil]
    exact agree_iff ⟨allowNets, blockNets⟩ ip

/-- CIDR notation: an address, a slash and the number of its leading bits. -/
def cidr (entry : String) : Option IpNet := do
  let (addr, len) ← Text.splitOnce '/' entry
  let (n, rest) ← IpAddr.readNumber 10 3 129 true len.toList
  guard (rest = [])
  match ← IpAddr.fromStr addr with
  | .v4 a => if h : n ≤ 32 then some (.v4 ⟨a, n, h⟩) else none
  | .v6 a => if h : n ≤ 128 then some (.v6 ⟨a, n, h⟩) else none

/-- A network, a host in it that is blocked, and a peer that is admitted. -/
theorem permits_iff_spec_iff_office :
    ∃ st, fromConfig cidr ["10.0.0.0/8", "2001:db8::/32"] ["10.0.0.5"] "api" = .ok (some st) ∧
      ∀ ip, (st.permits ip = true ↔ ¬ Rejected cidr ["10.0.0.0/8", "2001:db8::/32"] ["10.0.0.5"] ip) ↔
        NoMappedEntryDecides st ip.toCanonical :=
  permits_iff_spec_iff (by decide) (by decide) (.inl (by decide)) "api"

/-- **A mapped entry is void**: the host `10.0.0.5` is permitted under a list that blocks it, as either
peer address of its. -/
theorem mapped_block_void :
    ∃ st, fromConfig cidr [] ["::ffff:10.0.0.5"] "api" = .ok (some st) ∧
      ∀ ip ∈ [IpAddr.v4 0x0a000005#32, .v6 (IpAddr.mapped 0x0a000005#32)],
        st.permits ip = true ∧ Rejected cidr [] ["::ffff:10.0.0.5"] ip := by
  have hentry : parseIpEntry cidr "::ffff:10.0.0.5" = some (IpNet.ofAddr (.v6 (IpAddr.mapped 0x0a000005#32))) := by
    decide
  refine ⟨⟨[], [IpNet.ofAddr (.v6 (IpAddr.mapped 0x0a000005#32))]⟩, by decide, fun ip hip => ⟨?_, ?_⟩⟩
  · revert ip
    decide
  · refine .inl ⟨_, List.mem_singleton_self _, _, hentry, .v6 (IpAddr.mapped 0x0a000005#32), ?_, by decide⟩
    rw [IpAddr.sameHost_iff]
    revert ip
    decide

end G2way.Middleware.IpFilter
