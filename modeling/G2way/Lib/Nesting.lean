import Mathlib.Data.List.Perm.Subperm
import Mathlib.Logic.Relation

/-!
# Nesting without cycles

Definitions that refer to one another by name. Where every reference is defined and
none leads back to itself, a definition is nested no deeper than there are
definitions (`WellNested.bounded`), so a recursion that goes through references needs
no more fuel than that.
-/

namespace G2way.Lib.Nesting

open Relation (TransGen)

variable {N : Type*} {body : N → Option (List N)} {support : List N} {n : N}

/-- The definition of `a` refers to `b`. -/
def Refers (body : N → Option (List N)) (a b : N) : Prop := ∃ refs, body a = some refs ∧ b ∈ refs

/-- The definition and those below it are defined and nested no deeper than `k`. -/
def Bounded (body : N → Option (List N)) : ℕ → N → Prop
  | 0, _ => False
  | k + 1, n => ∃ refs, body n = some refs ∧ ∀ m ∈ refs, Bounded body k m

theorem Bounded.mono {k l : ℕ} (h : Bounded body k n) (hkl : k ≤ l) : Bounded body l n := by
  induction k generalizing l n with
  | zero => exact h.elim
  | succ k ih =>
    obtain ⟨l, rfl⟩ : ∃ l', l = l' + 1 := ⟨l - 1, by omega⟩
    obtain ⟨refs, hrefs, hbelow⟩ := h
    exact ⟨refs, hrefs, fun m hm => ih (hbelow m hm) (by omega)⟩

/-- References are defined, and none leads back to itself. -/
structure WellNested (body : N → Option (List N)) (support : List N) : Prop where
  /-- What is defined is among the names. -/
  support : ∀ n, (body n).isSome = true → n ∈ support
  closed : ∀ a b, Refers body a b → (body b).isSome = true
  acyclic : ∀ n, ¬ TransGen (Refers body) n n

/-- A chain of definitions that leads to `n`, each referring to the one before it in the list at some remove. -/
structure Chain (body : N → Option (List N)) (chain : List N) (n : N) : Prop where
  nodup : chain.Nodup
  defined : ∀ a ∈ chain, (body a).isSome = true
  reaches : ∀ a ∈ chain, TransGen (Refers body) a n
  target : (body n).isSome = true

theorem Chain.nil (h : (body n).isSome = true) : Chain body [] n :=
  ⟨List.nodup_nil, fun _ ha => absurd ha List.not_mem_nil, fun _ ha => absurd ha List.not_mem_nil, h⟩

namespace WellNested

variable {chain : List N}

theorem not_mem_chain (h : WellNested body support) (hchain : Chain body chain n) : n ∉ chain := fun hmem =>
  h.acyclic n (hchain.reaches n hmem)

theorem chain_cons (h : WellNested body support) (hchain : Chain body chain n) {m : N} (hnm : Refers body n m) :
    Chain body (n :: chain) m where
  nodup := List.nodup_cons.2 ⟨h.not_mem_chain hchain, hchain.nodup⟩
  defined := List.forall_mem_cons.2 ⟨hchain.target, hchain.defined⟩
  reaches := List.forall_mem_cons.2 ⟨.single hnm, fun a ha => (hchain.reaches a ha).tail hnm⟩
  target := h.closed n m hnm

/-- So a chain is shorter than there are names. -/
theorem chain_length_lt (h : WellNested body support) (hchain : Chain body chain n) :
    chain.length < support.length := by
  have hnodup : (n :: chain).Nodup := List.nodup_cons.2 ⟨h.not_mem_chain hchain, hchain.nodup⟩
  have hnames : n :: chain ⊆ support := by
    intro a ha
    rcases List.mem_cons.1 ha with rfl | ha
    · exact h.support a hchain.target
    · exact h.support a (hchain.defined a ha)
  exact Nat.lt_of_succ_le (List.subperm_of_subset hnodup hnames).length_le

theorem bounded_of_chain (h : WellNested body support) (k : ℕ) (hchain : Chain body chain n)
    (hk : support.length ≤ chain.length + k) : Bounded body k n := by
  induction k generalizing chain n with
  | zero =>
    have hlt := h.chain_length_lt hchain
    omega
  | succ k ih =>
    obtain ⟨refs, hrefs⟩ := Option.isSome_iff_exists.1 hchain.target
    refine ⟨refs, hrefs, fun m hm => ih (h.chain_cons hchain ⟨refs, hrefs, hm⟩) ?_⟩
    rw [List.length_cons]
    omega

/-- **A definition is nested no deeper than there are names.** -/
theorem bounded (h : WellNested body support) (hn : (body n).isSome = true) : Bounded body support.length n :=
  h.bounded_of_chain support.length (.nil hn) (by simp)

end WellNested

end G2way.Lib.Nesting
