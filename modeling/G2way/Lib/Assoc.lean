import Mathlib.Data.List.Nodup

/-!
# Maps as lists of pairs

A map that is kept in order is a list of keys and values, read with `List.lookup`.
The lemmas say when a lookup is membership, and what lookups in a list that was
made of another one find.
-/

namespace G2way.Lib.Assoc

variable {α β γ : Type*} [BEq α] [LawfulBEq α] {l : List (α × β)} {k : α} {v : β}

theorem mem_of_lookup (h : l.lookup k = some v) : (k, v) ∈ l := by
  obtain ⟨_, _, hsplit, _⟩ := List.lookup_eq_some_iff.1 h
  rw [hsplit]
  simp

theorem key_mem_of_lookup (h : l.lookup k = some v) : k ∈ l.map Prod.fst :=
  List.mem_map.2 ⟨_, mem_of_lookup h, rfl⟩

/-- Under distinct keys, a lookup is membership. -/
theorem lookup_eq_some_iff_mem (hnodup : (l.map Prod.fst).Nodup) : l.lookup k = some v ↔ (k, v) ∈ l := by
  refine ⟨mem_of_lookup, fun hmem => ?_⟩
  induction l with
  | nil => cases hmem
  | cons p l ih =>
    obtain ⟨hp, hl⟩ := List.nodup_cons.1 (by simpa using hnodup : (p.1 :: l.map Prod.fst).Nodup)
    rcases List.mem_cons.1 hmem with rfl | htail
    · simp
    · have hne : k ≠ p.1 := by
        rintro rfl
        exact hp (List.mem_map.2 ⟨_, htail, rfl⟩)
      obtain ⟨key, value⟩ := p
      rw [List.lookup_cons, beq_false_of_ne hne]
      exact ih hl htail

theorem exists_lookup_of_key_mem (h : k ∈ l.map Prod.fst) : ∃ v, l.lookup k = some v := by
  obtain ⟨⟨key, value⟩, hmem, rfl⟩ := List.mem_map.1 h
  refine Option.isSome_iff_exists.1 (List.lookup_isSome_iff.2 ⟨_, hmem, ?_⟩)
  simp

/-- Choosing among the values and changing them commutes with a lookup. -/
theorem lookup_filterMap (g : β → Option γ) (hnodup : (l.map Prod.fst).Nodup) :
    (l.filterMap fun p => (g p.2).map fun w => (p.1, w)).lookup k = (l.lookup k).bind g := by
  induction l with
  | nil => rfl
  | cons p l ih =>
    obtain ⟨key, value⟩ := p
    obtain ⟨hp, hl⟩ := List.nodup_cons.1 (by simpa using hnodup : (key :: l.map Prod.fst).Nodup)
    by_cases hk : k = key
    · subst hk
      cases hg : g value with
      | some w => simp [hg]
      | none =>
        rw [List.filterMap_cons_none (by simp [hg]), ih hl]
        have hnone : l.lookup k = none := by
          cases hlookup : l.lookup k with
          | none => rfl
          | some v => exact absurd (key_mem_of_lookup hlookup) hp
        simp [hnone, hg]
    · have hbeq : (k == key) = false := beq_false_of_ne hk
      cases hg : g value with
      | some w => simpa [hg, List.lookup_cons, hbeq] using ih hl
      | none => simpa [hg, List.lookup_cons, hbeq] using ih hl

/-- The first occurrences in a list are distinct. -/
theorem nodup_eraseDups (l : List α) : l.eraseDups.Nodup := by
  induction hn : l.length using Nat.strongRecOn generalizing l with
  | ind n ih =>
    cases l with
    | nil => simp
    | cons a l =>
      rw [List.eraseDups_cons, List.nodup_cons]
      refine ⟨by simp, ih _ ?_ _ rfl⟩
      subst hn
      exact Nat.lt_succ_of_le (List.length_filter_le _ _)

omit [BEq α] [LawfulBEq α] in
/-- What holds between the elements of a list holds between them when they are paired. -/
theorem pairwise_zip {R : α → α → Prop} {l : List α} (h : l.Pairwise R) (l' : List β) :
    (l.zip l').Pairwise fun p q => R p.1 q.1 := by
  induction l generalizing l' with
  | nil => simp
  | cons a l ih =>
    obtain ⟨ha, h⟩ := List.pairwise_cons.1 h
    cases l' with
    | nil => simp
    | cons b l' => exact List.pairwise_cons.2 ⟨fun p hp => ha _ (List.of_mem_zip hp).1, ih h l'⟩

end G2way.Lib.Assoc
