import Mathlib.Data.Finset.Card
import Mathlib.Data.Finset.SDiff

/-!
# Depth-first search with a visited set

A search for the first hit in a graph whose nodes have a body each: a list of hits
and of references to other nodes. The search reads a body in order, enters a node
only the first time it is referred to, and stops at the first hit. The visited set
outlives the entry of a node, so a search over several starting bodies, one after
another, is a search over their concatenation.

A node whose body refers to others is one of a finite `support`. The search is
given fuel, and more than the number of unvisited nodes of the support is enough.

`scan_eq_none_iff` says the search is right whatever the graph, cycles included:
it finds nothing exactly when no hit is reachable. What carries the proof is what
a search that found nothing leaves behind (`Scanned`): its visited set has grown,
and every node it added has a body with no hit, all of whose references are
visited too.
-/

namespace G2way.Lib.DepthFirst

variable {N H : Type*}

/-- An item of a body. -/
inductive Item (N H : Type*) where
  /-- What is searched for. -/
  | hit (h : H)
  /-- A reference to a node. -/
  | ref (n : N)

/-- Goes on with a search unless it has found something. -/
def goOn (r : Option H × List N) (k : List N → Option H × List N) : Option H × List N :=
  match r with
  | (some h, visited) => (some h, visited)
  | (none, visited) => k visited

@[simp]
theorem goOn_some (h : H) (visited : List N) (k : List N → Option H × List N) :
    goOn (some h, visited) k = (some h, visited) := rfl

@[simp]
theorem goOn_none (visited : List N) (k : List N → Option H × List N) :
    goOn (none, visited) k = k visited := rfl

theorem goOn_goOn (r : Option H × List N) (k k' : List N → Option H × List N) :
    goOn (goOn r k) k' = goOn r fun visited => goOn (k visited) k' := by
  rcases r with ⟨_ | h, visited⟩
  · rfl
  · rfl

/-- Goes through a body, entering the nodes it refers to with `enter`. -/
def scan (enter : N → List N → Option H × List N) : List (Item N H) → List N → Option H × List N
  | [], visited => (none, visited)
  | .hit h :: _, visited => (some h, visited)
  | .ref n :: rest, visited => goOn (enter n visited) (scan enter rest)

/-- Enters a node unless it was visited. -/
def enter [DecidableEq N] (body : N → List (Item N H)) : ℕ → N → List N → Option H × List N
  | 0, _, visited => (none, visited)
  | fuel + 1, n, visited =>
    if n ∈ visited then (none, visited) else scan (enter body fuel) (body n) (n :: visited)

theorem scan_append (enter : N → List N → Option H × List N) (xs ys : List (Item N H)) (visited : List N) :
    scan enter (xs ++ ys) visited = goOn (scan enter xs visited) (scan enter ys) := by
  induction xs generalizing visited with
  | nil => rfl
  | cons x xs ih =>
    cases x with
    | hit h => rfl
    | ref n =>
      simp only [List.cons_append, scan, goOn_goOn]
      congr 1
      funext visited'
      exact ih visited'

/-! ### Reachable hits -/

/-- A hit of a body, or of a body it refers to, and so on. -/
inductive Reaches (body : N → List (Item N H)) : List (Item N H) → H → Prop
  /-- A hit of the body itself. -/
  | hit {items : List (Item N H)} {h : H} : .hit h ∈ items → Reaches body items h
  /-- A hit reachable from a node it refers to. -/
  | ref {items : List (Item N H)} {n : N} {h : H} :
      .ref n ∈ items → Reaches body (body n) h → Reaches body items h

theorem Reaches.mono {body : N → List (Item N H)} {xs ys : List (Item N H)} {h : H} (hsub : xs ⊆ ys)
    (hx : Reaches body xs h) : Reaches body ys h := by
  cases hx with
  | hit hmem => exact .hit (hsub hmem)
  | ref hmem hn => exact .ref (hsub hmem) hn

/-- If every entry is sound then the scan is. -/
theorem scan_sound {body : N → List (Item N H)} {enter : N → List N → Option H × List N}
    (henter : ∀ n visited h, (enter n visited).1 = some h → Reaches body (body n) h)
    (items : List (Item N H)) (visited : List N) {h : H} (hscan : (scan enter items visited).1 = some h) :
    Reaches body items h := by
  induction items generalizing visited with
  | nil => simp [scan] at hscan
  | cons x items ih =>
    cases x with
    | hit h' =>
      simp only [scan, Option.some.injEq] at hscan
      exact .hit (by simp [hscan])
    | ref n =>
      simp only [scan] at hscan
      rcases heq : enter n visited with ⟨_ | h', visited'⟩
      · rw [heq, goOn_none] at hscan
        exact (ih _ hscan).mono (List.subset_cons_self ..)
      · rw [heq, goOn_some, Option.some.injEq] at hscan
        exact .ref (List.mem_cons_self ..) (henter n visited h (by rw [heq, hscan]))

theorem enter_sound [DecidableEq N] {body : N → List (Item N H)} (fuel : ℕ) (n : N) (visited : List N) {h : H}
    (henter : (enter body fuel n visited).1 = some h) : Reaches body (body n) h := by
  induction fuel generalizing n visited h with
  | zero => simp [enter] at henter
  | succ fuel ih =>
    simp only [enter] at henter
    split at henter
    · simp at henter
    · exact scan_sound (fun m visited' h' => ih m visited') _ _ henter

/-! ### What a search that found nothing leaves behind -/

/-- The visited set grew from `visited` to `visited'`, with the references of the body, and
every node added has a body with no hit, all of whose references are visited. -/
structure Scanned (body : N → List (Item N H)) (items : List (Item N H)) (visited visited' : List N) :
    Prop where
  grows : visited ⊆ visited'
  noHit : ∀ h, .hit h ∉ items
  refs : ∀ n, .ref n ∈ items → n ∈ visited'
  addedNoHit : ∀ n ∈ visited', n ∉ visited → ∀ h, .hit h ∉ body n
  addedRefs : ∀ n ∈ visited', n ∉ visited → ∀ m, .ref m ∈ body n → m ∈ visited'

/-- Two searches, one after the other. -/
theorem Scanned.append {body : N → List (Item N H)} {xs ys : List (Item N H)} {v₁ v₂ v₃ : List N}
    (h₁ : Scanned body xs v₁ v₂) (h₂ : Scanned body ys v₂ v₃) : Scanned body (xs ++ ys) v₁ v₃ where
  grows := fun _ h => h₂.grows (h₁.grows h)
  noHit := fun h hmem => (List.mem_append.1 hmem).elim (h₁.noHit h) (h₂.noHit h)
  refs := fun n hmem => (List.mem_append.1 hmem).elim (fun h => h₂.grows (h₁.refs n h)) (h₂.refs n)
  addedNoHit := by
    intro n hn hv
    by_cases h : n ∈ v₂
    · exact h₁.addedNoHit n h hv
    · exact h₂.addedNoHit n hn h
  addedRefs := by
    intro n hn hv m hm
    by_cases h : n ∈ v₂
    · exact h₂.grows (h₁.addedRefs n h hv m hm)
    · exact h₂.addedRefs n hn h m hm

/-- Everything reachable from a body that was searched from the start has no hit. -/
theorem Scanned.not_reaches {body : N → List (Item N H)} {items : List (Item N H)} {visited : List N}
    (hs : Scanned body items [] visited) (h : H) : ¬ Reaches body items h := by
  have closed : ∀ xs : List (Item N H), Reaches body xs h → (∀ h, .hit h ∉ xs) →
      (∀ n, .ref n ∈ xs → n ∈ visited) → False := by
    intro xs hx
    induction hx with
    | hit hmem => exact fun hno _ => hno _ hmem
    | ref hmem _ ih =>
      intro _ hrefs
      have hn := hrefs _ hmem
      exact ih (hs.addedNoHit _ hn (by simp)) (hs.addedRefs _ hn (by simp))
  exact fun hx => closed items hx hs.noHit hs.refs

/-- The number of nodes of the support that are still to be visited. -/
def pending [DecidableEq N] (support visited : List N) : ℕ := (support.toFinset \ visited.toFinset).card

theorem pending_cons_lt [DecidableEq N] {support visited : List N} {n : N} (hn : n ∈ support)
    (hv : n ∉ visited) : pending support (n :: visited) < pending support visited := by
  apply Finset.card_lt_card
  rw [Finset.ssubset_iff_of_subset]
  · exact ⟨n, by simp [hn, hv], by simp⟩
  · exact Finset.sdiff_subset_sdiff (Finset.Subset.refl _) (by simp [Finset.subset_insert])

theorem pending_le_of_subset [DecidableEq N] (support : List N) {v v' : List N} (h : v ⊆ v') :
    pending support v' ≤ pending support v := by
  apply Finset.card_le_card
  exact Finset.sdiff_subset_sdiff (Finset.Subset.refl _) fun x hx =>
    List.mem_toFinset.2 (h (List.mem_toFinset.1 hx))

/-- If every entry leaves a visited set behind as it should then the scan does. -/
theorem scan_scanned [DecidableEq N] {body : N → List (Item N H)} (support : List N) {fuel : ℕ}
    {enter : N → List N → Option H × List N} {items : List (Item N H)}
    (henter : ∀ n, .ref n ∈ items → ∀ visited visited', pending support visited < fuel →
      enter n visited = (none, visited') → Scanned body [.ref n] visited visited')
    (visited visited' : List N) (hfuel : pending support visited < fuel)
    (hscan : scan enter items visited = (none, visited')) : Scanned body items visited visited' := by
  induction items generalizing visited with
  | nil =>
    simp only [scan, Prod.mk.injEq, true_and] at hscan
    subst hscan
    exact ⟨List.Subset.refl _, by simp, by simp, fun _ h hn => absurd h hn, fun _ h hn => absurd h hn⟩
  | cons x items ih =>
    cases x with
    | hit h => simp [scan] at hscan
    | ref n =>
      simp only [scan] at hscan
      rcases heq : enter n visited with ⟨_ | h, mid⟩
      · rw [heq, goOn_none] at hscan
        have hn := henter n (List.mem_cons_self ..) visited mid hfuel heq
        have hlt : pending support mid < fuel := by
          have := pending_le_of_subset support hn.grows
          omega
        have hrest := ih (fun m hm => henter m (List.mem_cons_of_mem _ hm)) mid hlt hscan
        exact hn.append hrest
      · simp [heq] at hscan

theorem enter_scanned [DecidableEq N] {body : N → List (Item N H)} {support : List N}
    (hsupport : ∀ n, n ∉ support → ∀ m, .ref m ∉ body n) (fuel : ℕ) (n : N) (visited visited' : List N)
    (hfuel : pending support visited < fuel) (henter : enter body fuel n visited = (none, visited')) :
    Scanned body [.ref n] visited visited' := by
  induction fuel generalizing n visited visited' with
  | zero => omega
  | succ fuel ih =>
    simp only [enter] at henter
    split at henter
    · next hvisited =>
      simp only [Prod.mk.injEq, true_and] at henter
      subst henter
      refine ⟨List.Subset.refl _, by simp, ?_, fun _ h hn => absurd h hn, fun _ h hn => absurd h hn⟩
      simpa using hvisited
    · next hvisited =>
      have hbody : Scanned body (body n) (n :: visited) visited' := by
        by_cases hn : n ∈ support
        · have hlt := pending_cons_lt hn hvisited
          exact scan_scanned support (fun m _ => ih m) _ _ (by omega) henter
        · exact scan_scanned support (fun m hm => absurd hm (hsupport n hn m)) _ _ (Nat.lt_succ_self _) henter
      have hmem : n ∈ visited' := hbody.grows (List.mem_cons_self ..)
      refine ⟨fun m hm => hbody.grows (List.mem_cons_of_mem _ hm), by simp, by simpa using hmem, ?_, ?_⟩
      · intro m hm hv
        by_cases hmn : m = n
        · exact hmn ▸ hbody.noHit
        · exact hbody.addedNoHit m hm (by simp [hmn, hv])
      · intro m hm hv
        by_cases hmn : m = n
        · exact hmn ▸ hbody.refs
        · exact hbody.addedRefs m hm (by simp [hmn, hv])

/-- **The search is right**: it finds nothing exactly when there is no reachable hit. -/
theorem scan_eq_none_iff [DecidableEq N] {body : N → List (Item N H)} (support : List N)
    (hsupport : ∀ n, n ∉ support → ∀ m, .ref m ∉ body n) {fuel : ℕ} (hfuel : support.length < fuel)
    (items : List (Item N H)) :
    (scan (enter body fuel) items []).1 = none ↔ ∀ h, ¬ Reaches body items h := by
  have hpending : pending support ([] : List N) < fuel := by
    have hle := List.toFinset_card_le support
    simp only [pending, List.toFinset_nil, Finset.sdiff_empty]
    omega
  constructor
  · intro hnone
    have hscan : scan (enter body fuel) items [] = (none, (scan (enter body fuel) items []).2) := by
      rw [← hnone]
    have hscanned :=
      scan_scanned support (fun n _ v v' => enter_scanned hsupport fuel n v v') _ _ hpending hscan
    exact hscanned.not_reaches
  · intro hno
    cases hres : (scan (enter body fuel) items []).1 with
    | none => rfl
    | some h => exact absurd (scan_sound (fun n v h => enter_sound fuel n v) items [] hres) (hno h)

end G2way.Lib.DepthFirst
