import G2way.Lib.Glob
import G2way.Storage.TtlMap
import Mathlib.Data.List.Destutter
import Mathlib.Data.String.Basic

/-!
# Prefix scans

`scan_prefix` of the two backends: `MemoryStorage` filters its map
(`Table.scan`), and `RedisStorage` sends `SCAN` commands until the cursor comes back
as `0`, with a pattern "so a `Storage::scan_prefix` prefix always matches literally".

## The model

A Redis server is the answers it gives to the commands of one scan, in their order;
an answer may be an error. What Redis guarantees of a full iteration over keys that
do not change is `FullIteration`: it ends, every key that matches the pattern is in
some batch, maybe in several, and no other key is. Matching is `Glob.globMatch`, on
the bytes of the key. The loop has fuel; with enough of it the result does not depend
on it.

## What is proved

`globMatch_escapeGlob`: the pattern matches the keys with the prefix, whatever
characters it has. So a scan returns each live key with the prefix once, on Redis as
in memory (`scanPrefix_exact`).
-/

namespace G2way.Storage

open G2way.Lib

/-! ### The pattern -/

/-- The metacharacters `* ? [ ] \`. -/
def isMeta (c : Char) : Bool := c = '*' || c = '?' || c = '[' || c = ']' || c = '\\'

/-- `escape_glob`. -/
def escapeGlob (s : String) : String :=
  String.ofList (s.toList.flatMap fun c => if isMeta c then ['\\', c] else [c])

/-- The bytes of a character that is no metacharacter have no meaning. -/
theorem isSpecial_of_mem_encode {c : Char} (hc : isMeta c = false) {b : UInt8} (hb : b ∈ String.utf8EncodeChar c) :
    Glob.isSpecial b = false := by
  cases hspecial : Glob.isSpecial b with
  | false => rfl
  | true =>
    simp only [Glob.isSpecial, Bool.or_eq_true, decide_eq_true_eq] at hspecial
    simp only [isMeta, Bool.or_eq_false_iff, decide_eq_false_iff_not] at hc
    have hsame {d : Char} (h : b.toNat = d.toNat) (hd : d.toNat < 128) : c = d :=
      Char.toNat_inj.mp ((Text.toNat_of_mem_utf8EncodeChar hb (h ▸ hd)).trans h)
    obtain ⟨⟨⟨⟨hstar, hquery⟩, hopen⟩, hclose⟩, hback⟩ := hc
    rcases hspecial with (((rfl | rfl) | rfl) | rfl) | rfl
    · exact absurd (hsame (d := '*') rfl (by decide)) hstar
    · exact absurd (hsame (d := '?') rfl (by decide)) hquery
    · exact absurd (hsame (d := '[') rfl (by decide)) hopen
    · exact absurd (hsame (d := ']') rfl (by decide)) hclose
    · exact absurd (hsame (d := '\\') rfl (by decide)) hback

/-- A metacharacter is one byte. -/
theorem encode_of_isMeta {c : Char} (hc : isMeta c = true) :
    String.utf8EncodeChar '\\' ++ String.utf8EncodeChar c = 92 :: String.utf8EncodeChar c ∧
      ∃ b, String.utf8EncodeChar c = [b] := by
  simp only [isMeta, Bool.or_eq_true, decide_eq_true_eq] at hc
  rcases hc with (((rfl | rfl) | rfl) | rfl) | rfl
  all_goals exact ⟨rfl, _, rfl⟩

/-- The pattern is read as the bytes of the prefix, and a `*`. -/
theorem tokens_escapeGlob (pre : String) :
    Glob.tokens none (Text.utf8 (escapeGlob pre ++ "*")) = (Text.utf8 pre).map .literal ++ [.star] := by
  rw [Text.utf8, Text.utf8, String.toList_append, escapeGlob, String.toList_ofList, List.flatMap_append]
  induction pre.toList with
  | nil => decide
  | cons c cs ih =>
    rw [List.flatMap_cons, List.flatMap_append, List.append_assoc, List.flatMap_cons, List.map_append, List.append_assoc,
      ← ih]
    cases hc : isMeta c with
    | false =>
      rw [if_neg Bool.false_ne_true, List.flatMap_singleton]
      exact Glob.tokens_append (fun b hb => isSpecial_of_mem_encode hc hb) _
    | true =>
      obtain ⟨hback, b, hb⟩ := encode_of_isMeta hc
      rw [if_pos rfl, List.flatMap_cons, List.flatMap_singleton, hback, hb]
      exact Glob.tokens_escaped b _

/-- **The pattern matches the keys with the prefix.** -/
theorem globMatch_escapeGlob (pre key : String) :
    Glob.globMatch (Text.utf8 (escapeGlob pre ++ "*")) (Text.utf8 key) = Text.startsWith pre key := by
  rw [Bool.eq_iff_iff, Glob.globMatch, tokens_escapeGlob, Glob.accepts_literals_star, Text.utf8_prefix_iff,
    Text.startsWith, List.isPrefixOf_iff_prefix]

/-! ### The loop -/

/-- A `SCAN` command. -/
structure ScanCommand where
  cursor : ℕ
  /-- `MATCH`. -/
  pattern : String
  /-- `COUNT`, a hint to the server. -/
  count : ℕ
  deriving DecidableEq, Repr

/-- The answer to the `n`th command of a scan: the next cursor and a batch of keys, or an error. -/
abbrev ScanServer : Type := ℕ → ScanCommand → Except String (ℕ × List String)

/-- The loop of `scan_prefix`, at its `n`th command; `none` when the fuel is used up. -/
def scanLoop (server : ScanServer) (pattern : String) : ℕ → ℕ → ℕ → List String → Option (Except String (List String))
  | 0, _, _, _ => none
  | fuel + 1, n, cursor, keys =>
    match server n ⟨cursor, pattern, 100⟩ with
    | .error e => some (.error e)
    | .ok (next, batch) =>
      if next = 0 then some (.ok (keys ++ batch)) else scanLoop server pattern fuel (n + 1) next (keys ++ batch)

/-- `sort_unstable` and `dedup`. -/
def sortDedup (keys : List String) : List String := (keys.mergeSort fun a b => a ≤ b).destutter (· ≠ ·)

/-- `RedisStorage::scan_prefix`. -/
def redisScanPrefix (server : ScanServer) (fuel : ℕ) (pre : String) : Option (Except String (List String)) :=
  (scanLoop server (escapeGlob pre ++ "*") fuel 0 0 []).map (Except.map sortDedup)

/-- From the `n`th command on, with this cursor, the iteration comes to its end with these batches. -/
inductive Iterates (server : ScanServer) (pattern : String) : ℕ → ℕ → List (List String) → Prop where
  | last {n cursor : ℕ} {batch : List String} (h : server n ⟨cursor, pattern, 100⟩ = .ok (0, batch)) :
      Iterates server pattern n cursor [batch]
  | more {n cursor next : ℕ} {batch : List String} {batches : List (List String)}
      (h : server n ⟨cursor, pattern, 100⟩ = .ok (next, batch)) (hnext : next ≠ 0)
      (hrest : Iterates server pattern (n + 1) next batches) : Iterates server pattern n cursor (batch :: batches)

/-- What `SCAN` guarantees of a full iteration while the keys stay as they are. -/
structure FullIteration (server : ScanServer) (pattern : String) (keys : List String) (batches : List (List String)) :
    Prop where
  ends : Iterates server pattern 0 0 batches
  /-- A key that is there throughout is returned at least once, if it matches. -/
  returned : ∀ key ∈ keys, Glob.globMatch (Text.utf8 pattern) (Text.utf8 key) = true → ∃ batch ∈ batches, key ∈ batch
  /-- What is returned is there and matches. -/
  present : ∀ batch ∈ batches, ∀ key ∈ batch,
    key ∈ keys ∧ Glob.globMatch (Text.utf8 pattern) (Text.utf8 key) = true

/-- The loop collects the batches of the iteration. -/
theorem scanLoop_of_iterates {server : ScanServer} {pattern : String} {n cursor : ℕ} {batches : List (List String)}
    (h : Iterates server pattern n cursor batches) {fuel : ℕ} (hfuel : batches.length ≤ fuel) (keys : List String) :
    scanLoop server pattern fuel n cursor keys = some (.ok (keys ++ batches.flatten)) := by
  induction h generalizing fuel keys with
  | last h =>
    obtain ⟨fuel, rfl⟩ : ∃ m, fuel = m + 1 := Nat.exists_eq_succ_of_ne_zero (by simp at hfuel; omega)
    simp [scanLoop, h]
  | more h hnext _ ih =>
    obtain ⟨fuel, rfl⟩ : ∃ m, fuel = m + 1 := Nat.exists_eq_succ_of_ne_zero (by simp at hfuel; omega)
    simp only [scanLoop, h, if_neg hnext]
    rw [ih (by simpa using hfuel), List.flatten_cons, List.append_assoc]

/-! ### Each key once -/

theorem mem_destutter_ne {α : Type*} [DecidableEq α] {l : List α} {a : α} : a ∈ l.destutter (· ≠ ·) ↔ a ∈ l := by
  refine ⟨fun h => (List.destutter_sublist _ l).mem h, fun h => ?_⟩
  induction l with
  | nil => cases h
  | cons b l ih =>
    rw [List.destutter_cons']
    rcases List.mem_cons.mp h with rfl | h
    · exact List.mem_destutter' ..
    · cases l with
      | nil => cases h
      | cons c l =>
        rw [List.destutter'_cons]
        have htail := ih h
        rw [List.destutter_cons'] at htail
        by_cases hbc : b ≠ c
        · rw [if_pos hbc]
          exact List.mem_cons_of_mem _ htail
        · obtain rfl := not_not.mp hbc
          rwa [if_neg hbc]

/-- Sorting and dropping repetitions leaves each key once. -/
theorem nodup_sortDedup (keys : List String) : (sortDedup keys).Nodup := by
  have hsorted : (sortDedup keys).Pairwise (· ≤ ·) := by
    have hpairs := @List.pairwise_mergeSort String (fun a b => decide (a ≤ b))
      (fun a b c hab hbc => by simp only [decide_eq_true_eq] at *; exact le_trans hab hbc)
      (fun a b => by simp only [Bool.or_eq_true, decide_eq_true_eq]; exact le_total a b) keys
    simp only [decide_eq_true_eq] at hpairs
    exact hpairs.sublist (List.destutter_sublist _ _)
  have hchain : (sortDedup keys).IsChain (· ≠ ·) := List.isChain_destutter _ _
  have hlt : (sortDedup keys).IsChain (· < ·) := by
    rw [List.isChain_iff_getElem] at hchain ⊢
    intro i hi
    exact lt_of_le_of_ne (List.pairwise_iff_getElem.mp hsorted i (i + 1) (by omega) hi (Nat.lt_succ_self i)) (hchain i hi)
  exact hlt.pairwise.imp fun h => ne_of_lt h

theorem mem_sortDedup {keys : List String} {key : String} : key ∈ sortDedup keys ↔ key ∈ keys := by
  rw [sortDedup, mem_destutter_ne, List.mem_mergeSort]

theorem Table.nodup_scan (map : Table) (pre : String) (now : ℕ) : (map.scan pre now).Nodup :=
  map.keys_nodup.sublist (List.filter_sublist.map Sigma.fst)

/-- **Prefix scans are exact, and equal on both backends**: the pattern matches the keys with the
prefix, and both scans return each of the live ones once. -/
theorem scanPrefix_exact (pre : String) {map : Table} {now : ℕ} {keys : List String}
    (hsame : ∀ key, key ∈ keys ↔ ∃ e, map.lookup key = some e ∧ e.isExpired now = false)
    {server : ScanServer} {batches : List (List String)}
    (hscan : FullIteration server (escapeGlob pre ++ "*") keys batches) :
    (∀ key, Glob.globMatch (Text.utf8 (escapeGlob pre ++ "*")) (Text.utf8 key) = Text.startsWith pre key) ∧
      ∃ result, (∀ fuel, batches.length ≤ fuel → redisScanPrefix server fuel pre = some (.ok result)) ∧
        result.Nodup ∧ (∀ key, key ∈ result ↔ key ∈ keys ∧ Text.startsWith pre key = true) ∧
        (map.scan pre now).Nodup ∧ ∀ key, key ∈ map.scan pre now ↔ key ∈ result := by
  have hmem : ∀ key, key ∈ sortDedup batches.flatten ↔ key ∈ keys ∧ Text.startsWith pre key = true := by
    intro key
    rw [mem_sortDedup, List.mem_flatten, ← globMatch_escapeGlob]
    constructor
    · rintro ⟨batch, hbatch, hkey⟩
      exact hscan.present batch hbatch key hkey
    · rintro ⟨hkey, hmatch⟩
      exact hscan.returned key hkey hmatch
  refine ⟨globMatch_escapeGlob pre, sortDedup batches.flatten, fun fuel hfuel => ?_, nodup_sortDedup _, hmem,
    Table.nodup_scan .., fun key => ?_⟩
  · rw [redisScanPrefix, scanLoop_of_iterates hscan.ends hfuel]
    rfl
  · rw [Table.mem_scan, hmem, hsame, and_comm]

/-- Three keys, one of them with a bracket in its organization. -/
def orgTable : Table :=
  ((∅ : Table).insert "g2:[a]:1" ⟨"x", none⟩).insert "g2:a:1" ⟨"y", none⟩ |>.insert "g2:[a]:2" ⟨"z", some 9⟩

/-- A server that answers in two batches, the first key in both. -/
def orgServer : ScanServer := fun _ c =>
  if c.cursor = 0 then .ok (7, ["g2:[a]:1"]) else .ok (0, ["g2:[a]:2", "g2:[a]:1"])

theorem scanPrefix_exact_org :
    (∀ key, Glob.globMatch (Text.utf8 (escapeGlob "g2:[a]:" ++ "*")) (Text.utf8 key) =
        Text.startsWith "g2:[a]:" key) ∧
      ∃ result, (∀ fuel, 2 ≤ fuel → redisScanPrefix orgServer fuel "g2:[a]:" = some (.ok result)) ∧
        result.Nodup ∧
        (∀ key, key ∈ result ↔ key ∈ ["g2:[a]:1", "g2:a:1", "g2:[a]:2"] ∧ Text.startsWith "g2:[a]:" key = true) ∧
        (orgTable.scan "g2:[a]:" 5).Nodup ∧ ∀ key, key ∈ orgTable.scan "g2:[a]:" 5 ↔ key ∈ result := by
  have hscan : FullIteration orgServer (escapeGlob "g2:[a]:" ++ "*") ["g2:[a]:1", "g2:a:1", "g2:[a]:2"]
      [["g2:[a]:1"], ["g2:[a]:2", "g2:[a]:1"]] :=
    ⟨.more rfl (by decide) (.last rfl), by decide, by decide⟩
  refine scanPrefix_exact "g2:[a]:" (fun key => ?_) hscan
  constructor
  · intro h
    simp only [List.mem_cons, List.not_mem_nil, or_false] at h
    rcases h with rfl | rfl | rfl
    · exact ⟨_, rfl, rfl⟩
    · exact ⟨_, rfl, rfl⟩
    · exact ⟨_, rfl, rfl⟩
  · rintro ⟨e, he, -⟩
    have hkey : key ∈ orgTable.keys := AList.mem_keys.mp (AList.lookup_isSome.mp (by rw [he]; rfl))
    have hkeys : orgTable.keys = ["g2:[a]:2", "g2:a:1", "g2:[a]:1"] := by decide
    rw [hkeys] at hkey
    simp only [List.mem_cons, List.not_mem_nil, or_false] at hkey ⊢
    tauto

end G2way.Storage
