import G2way.Lib.Text

/-!
# Internet addresses

An address of either family is a bit vector, and a network is an address with the
number of leading bits that count. A network contains the addresses of its own family
whose leading bits are its own.

An IPv4 address has a second notation, as the IPv6 address `::ffff:a.b.c.d`
(`mapped`). Two addresses are of one host when they are equal or one is the mapped
form of the other; the canonical form of an address is its IPv4 form where it has one,
so that two addresses are of one host exactly if their canonical forms are equal
(`sameHost_iff`).

Reading an address follows the parser of Rust's `core::net`.
-/

namespace G2way.Lib

/-- `IpAddr`. -/
inductive IpAddr where
  | v4 (a : BitVec 32)
  | v6 (a : BitVec 128)
  deriving DecidableEq, Repr

/-- A network of one family. -/
structure Network (w : ℕ) where
  addr : BitVec w
  /-- The leading bits that count. -/
  prefixLen : ℕ
  prefixLen_le : prefixLen ≤ w
  deriving DecidableEq, Repr

/-- The address has the leading bits of the network. -/
def Network.contains {w : ℕ} (net : Network w) (a : BitVec w) : Bool :=
  a >>> (w - net.prefixLen) == net.addr >>> (w - net.prefixLen)

/-- `IpNet`. -/
inductive IpNet where
  | v4 (net : Network 32)
  | v6 (net : Network 128)
  deriving DecidableEq, Repr

namespace IpNet

/-- `contains`, within one family. -/
def contains : IpNet → IpAddr → Bool
  | .v4 net, .v4 a => net.contains a
  | .v6 net, .v6 a => net.contains a
  | _, _ => false

/-- `IpNet::from`: the network of one address. -/
def ofAddr : IpAddr → IpNet
  | .v4 a => .v4 ⟨a, 32, le_rfl⟩
  | .v6 a => .v6 ⟨a, 128, le_rfl⟩

end IpNet

namespace IpAddr

/-- `to_ipv6_mapped`: `::ffff:a.b.c.d`. -/
def mapped (a : BitVec 32) : BitVec 128 := BitVec.ofNat 128 (0xffff * 2 ^ 32 + a.toNat)

/-- `to_canonical`. -/
def toCanonical : IpAddr → IpAddr
  | .v4 a => .v4 a
  | .v6 a => if a >>> 32 = 0xffff#128 then .v4 (a.setWidth 32) else .v6 a

/-- The addresses of one host: an IPv4 address and its mapped form are. -/
inductive SameHost : IpAddr → IpAddr → Prop where
  | refl (x : IpAddr) : SameHost x x
  | toMapped (a : BitVec 32) : SameHost (.v4 a) (.v6 (mapped a))
  | ofMapped (a : BitVec 32) : SameHost (.v6 (mapped a)) (.v4 a)

theorem toNat_mapped (a : BitVec 32) : (mapped a).toNat = 0xffff * 2 ^ 32 + a.toNat := by
  rw [mapped, BitVec.toNat_ofNat]
  omega

theorem mapped_shift (a : BitVec 32) : mapped a >>> 32 = 0xffff#128 := by
  apply BitVec.eq_of_toNat_eq
  rw [BitVec.toNat_ushiftRight, toNat_mapped, Nat.shiftRight_eq_div_pow, BitVec.toNat_ofNat]
  omega

theorem setWidth_mapped (a : BitVec 32) : (mapped a).setWidth 32 = a := by
  apply BitVec.eq_of_toNat_eq
  rw [BitVec.toNat_setWidth, toNat_mapped]
  omega

/-- An address that is canonicalized is the mapped form of what it becomes. -/
theorem eq_mapped_of_shift {x : BitVec 128} (h : x >>> 32 = 0xffff#128) : x = mapped (x.setWidth 32) := by
  have hnat := congrArg BitVec.toNat h
  rw [BitVec.toNat_ushiftRight, Nat.shiftRight_eq_div_pow, BitVec.toNat_ofNat] at hnat
  apply BitVec.eq_of_toNat_eq
  rw [toNat_mapped, BitVec.toNat_setWidth]
  omega

theorem toCanonical_mapped (a : BitVec 32) : toCanonical (.v6 (mapped a)) = .v4 a := by
  rw [toCanonical, if_pos (mapped_shift a), setWidth_mapped]

/-- An address is the IPv4 form or the mapped form of an IPv4 host, or it is its own canonical form. -/
theorem toCanonical_cases (x : IpAddr) :
    (∃ a, (x = .v4 a ∨ x = .v6 (mapped a)) ∧ x.toCanonical = .v4 a) ∨ ∃ b, x = .v6 b ∧ x.toCanonical = .v6 b := by
  cases x with
  | v4 a => exact .inl ⟨a, .inl rfl, rfl⟩
  | v6 b =>
    by_cases h : b >>> 32 = 0xffff#128
    · refine .inl ⟨b.setWidth 32, .inr ?_, if_pos h⟩
      rw [← eq_mapped_of_shift h]
    · exact .inr ⟨b, rfl, if_neg h⟩

/-- **Two addresses are of one host exactly if their canonical forms are equal.** -/
theorem sameHost_iff {x y : IpAddr} : SameHost x y ↔ x.toCanonical = y.toCanonical := by
  constructor
  · rintro (_ | a | a)
    · rfl
    · exact (toCanonical_mapped a).symm
    · exact toCanonical_mapped a
  · intro h
    rcases toCanonical_cases x with ⟨a, hx, hcx⟩ | ⟨b, rfl, hcx⟩
    · rcases toCanonical_cases y with ⟨a', hy, hcy⟩ | ⟨b, rfl, hcy⟩
      · obtain rfl : a = a' := by rw [hcx, hcy] at h; exact v4.inj h
        rcases hx with rfl | rfl
        · rcases hy with rfl | rfl
          · exact .refl _
          · exact .toMapped a
        · rcases hy with rfl | rfl
          · exact .ofMapped a
          · exact .refl _
      · rw [hcx, hcy] at h
        cases h
    · rcases toCanonical_cases y with ⟨a', hy, hcy⟩ | ⟨b', rfl, hcy⟩
      · rw [hcx, hcy] at h
        cases h
      · rw [hcx, hcy] at h
        exact h ▸ .refl _

/-! ### Reading -/

/-- `Parser::read_given_char`. -/
def readGivenChar (c : Char) : List Char → Option (List Char)
  | d :: s => if d = c then some s else none
  | [] => none

/-- `char::to_digit`. -/
def toDigit (radix : ℕ) (c : Char) : Option ℕ :=
  let n := if c.isDigit then c.toNat - 48 else if c.isAlpha then c.toLower.toNat - 87 else radix
  if n < radix then some n else none

/-- `Parser::read_number`: a number below `bound`, of at most `most` digits. -/
def readNumber (radix most bound : ℕ) (allowZeroPrefix : Bool) (s : List Char) : Option (ℕ × List Char) :=
  let digits := s.takeWhile fun c => (toDigit radix c).isSome
  let n := digits.foldl (fun n c => n * radix + (toDigit radix c).getD 0) 0
  if digits = [] ∨ most < digits.length ∨ bound ≤ n then none
  else if !allowZeroPrefix ∧ digits.head? = some '0' ∧ 1 < digits.length then none
  else some (n, s.dropWhile fun c => (toDigit radix c).isSome)

/-- `Parser::read_ipv4_addr`: the numbers that are left, the first of them without a dot. -/
def readOctets : ℕ → Bool → List Char → Option (List ℕ × List Char)
  | 0, _, s => some ([], s)
  | k + 1, first, s => do
    let s ← if first then some s else readGivenChar '.' s
    let (n, s) ← readNumber 10 3 256 false s
    let (ns, s) ← readOctets k false s
    return (n :: ns, s)

/-- `read_groups`, with `k` groups left: the groups that were read, whether the last two are an
embedded IPv4 address, and the rest. -/
def readGroups : ℕ → Bool → List Char → List ℕ × Bool × List Char
  | 0, _, s => ([], false, s)
  | k + 1, first, s =>
    let start := if first then some s else readGivenChar ':' s
    match if k = 0 then none else start.bind (readOctets 4 true) with
    | some ([a, b, c, d], rest) => ([a * 256 + b, c * 256 + d], true, rest)
    | _ =>
      match start.bind (readNumber 16 4 65536 true) with
      | some (g, rest) =>
        let (gs, ipv4, rest) := readGroups k false rest
        (g :: gs, ipv4, rest)
      | none => ([], false, s)

/-- The number of parts in a base. -/
def join (base : ℕ) (parts : List ℕ) : ℕ := parts.foldl (fun n p => n * base + p) 0

/-- `Parser::read_ipv6_addr`. -/
def readIpv6 (s : List Char) : Option (ℕ × List Char) :=
  match readGroups 8 true s with
  | (head, ipv4, rest) =>
    if head.length = 8 then some (join 65536 head, rest)
    else if ipv4 then none
    else do
      let rest ← readGivenChar ':' rest
      let rest ← readGivenChar ':' rest
      match readGroups (7 - head.length) true rest with
      | (tail, _, rest) =>
        some (join 65536 (head ++ List.replicate (8 - head.length - tail.length) 0 ++ tail), rest)

/-- `IpAddr::from_str`. -/
def fromStr (s : String) : Option IpAddr :=
  match readOctets 4 true s.toList with
  | some (octets, rest) => if rest = [] then some (.v4 (BitVec.ofNat 32 (join 256 octets))) else none
  | none =>
    match readIpv6 s.toList with
    | some (n, rest) => if rest = [] then some (.v6 (BitVec.ofNat 128 n)) else none
    | none => none

example : fromStr "10.0.0.5" = some (.v4 0x0a000005#32) := by decide
example : fromStr "2001:db8::1" = some (.v6 0x20010db8000000000000000000000001#128) := by decide
example : fromStr "::ffff:10.0.0.5" = some (.v6 (mapped 0x0a000005#32)) := by decide
example : fromStr "10.0.0.05" = none ∧ fromStr "1::2::3" = none ∧ fromStr "" = none := by decide

end IpAddr

end G2way.Lib
