import G2way.Core.ApiDefinition
import Mathlib.Data.List.Nodup
import Mathlib.Data.List.Sort
import Mathlib.Data.String.Basic

/-!
# Loading and merging definitions

`g2-core/src/loader.rs`: the file source of definitions (`load_dir`), and
`merge_sources`, which combines it with the stored one "into the one conflict-free
set the router is built from". "There is no precedence between sources: a duplicate
`api_id` or `listen_path` … is an error naming the sources involved, never a silent
shadow."

## The model

A directory is what reading it returned: its entries in the order of `read_dir`, which
no two pods need share, and the text of each. `serde_yaml` is a parameter. The hash
maps of the two checks are association lists; only lookups and insertions are made.

## What is proved

`mergeSources_eq_ok` says exactly when the merge succeeds and what it then is, and
`mergeSources_perm` that neither the order in which a source lists its definitions nor
the source a definition comes from matters to it.
-/

namespace G2way.Core.Loader

open G2way.Lib G2way.Lib.Result

variable {B : Type}

/-! ### Errors -/

/-- The errors of the loader. -/
inductive Error where
  | io (path source : String)
  | parse (path reason : String)
  | invalidApiDefinition (e : InvalidApiDefinition)
  | conflictingApiDefinitions (reason : String)
  deriving DecidableEq, Repr

/-! ### Conflicts -/

/-- The listen path "modulo one trailing slash": the code trims every one. -/
def normalizedPath (d : ApiDefinition B) : String := Text.trimEndMatches '/' d.listenPath

/-- The loop of both checks: each definition, with the label of its source, against the ids and the paths that
stand before it. -/
def checkUnique {L : Type} (sources : L → L → String) : List (String × L) → List (String × L) →
    List (ApiDefinition B × L) → Except Error Unit
  | _, _, [] => .ok ()
  | ids, paths, (d, label) :: rest =>
    match ids.lookup d.apiId with
    | some prev =>
      .error (.conflictingApiDefinitions ("duplicate api_id `" ++ d.apiId ++ "`" ++ sources prev label))
    | none =>
      match paths.lookup (normalizedPath d) with
      | some prev =>
        .error (.conflictingApiDefinitions ("duplicate listen_path `" ++ d.listenPath ++ "`" ++ sources prev label))
      | none => checkUnique sources ((d.apiId, label) :: ids) ((normalizedPath d, label) :: paths) rest

/-- `check_conflicts`. -/
def checkConflicts (defs : List (ApiDefinition B)) : Except Error Unit :=
  checkUnique (fun _ _ => "") [] [] (defs.map fun d => (d, ()))

/-- The sources in the message of `merge_sources`. -/
def namedSources (prev source : String) : String := " (" ++ prev ++ " source and " ++ source ++ " source)"

/-- By `api_id`. -/
def byApiId (a b : ApiDefinition B) : Bool := a.apiId ≤ b.apiId

/-- `merge_sources`. -/
def mergeSources (fileDefs storageDefs : List (ApiDefinition B)) : Except Error (List (ApiDefinition B)) := do
  checkUnique namedSources [] [] (fileDefs.map (fun d => (d, "file")) ++ storageDefs.map fun d => (d, "storage"))
  return (fileDefs ++ storageDefs).mergeSort byApiId

/-! ### The file source -/

/-- A file of the directory: its name, and what reading it returned. -/
structure SourceFile where
  name : String
  contents : Except String String

/-- `Path::extension`: what stands behind the last dot, unless nothing stands before it. -/
def extension (name : String) : Option String :=
  let after := name.toList.reverse.takeWhile (· ≠ '.')
  let before := (name.toList.reverse.dropWhile (· ≠ '.')).drop 1
  if name = ".." ∨ after.length = name.toList.length ∨ before = [] then none else some (String.ofList after.reverse)

/-- One round of `load_dir`; files with other extensions are skipped. -/
def loadFile (c : Crates B) (yaml : String → Except String (ApiDefinition B)) (dir : String)
    (entry : Except String SourceFile) : Except Error (Option (ApiDefinition B)) := do
  let file ← entry.mapError (Error.io dir)
  match extension file.name with
  | none => return none
  | some ext =>
    if ext ∉ ["json", "yaml", "yml"] then return none
    else
      let raw ← file.contents.mapError (Error.io file.name)
      let d ← (yaml raw).mapError (Error.parse file.name)
      (d.validate c).mapError Error.invalidApiDefinition
      return some d

/-- `load_dir`, given what reading the directory returned. -/
def loadDir (c : Crates B) (yaml : String → Except String (ApiDefinition B)) (dir : String)
    (entries : Except String (List (Except String SourceFile))) : Except Error (List (ApiDefinition B)) := do
  let entries ← entries.mapError (Error.io dir)
  let defs ← entries.filterMapM (loadFile c yaml dir)
  checkConflicts defs
  return defs.mergeSort byApiId

/-! ### What the checks let through -/

section Unique

variable {L : Type} {sources : L → L → String}

theorem lookup_eq_none_iff {ids : List (String × L)} {k : String} : ids.lookup k = none ↔ k ∉ ids.map Prod.fst := by
  rw [List.lookup_eq_none_iff, List.mem_map]
  constructor
  · rintro h ⟨p, hp, rfl⟩
    simpa using h p hp
  · rintro h p hp
    simp only [bne_iff_ne, ne_eq]
    rintro rfl
    exact h ⟨p, hp, rfl⟩

/-- The loop passes exactly if no id and no path comes twice, those before it included. -/
theorem checkUnique_eq_ok {ids paths : List (String × L)} {defs : List (ApiDefinition B × L)} {u : Unit} :
    checkUnique sources ids paths defs = .ok u ↔
      (defs.map fun p => p.1.apiId).Nodup ∧ (defs.map fun p => normalizedPath p.1).Nodup ∧
        ∀ p ∈ defs, p.1.apiId ∉ ids.map Prod.fst ∧ normalizedPath p.1 ∉ paths.map Prod.fst := by
  induction defs generalizing ids paths with
  | nil => simp [checkUnique]
  | cons p rest ih =>
    obtain ⟨d, label⟩ := p
    rw [checkUnique]
    cases hid : ids.lookup d.apiId with
    | some prev =>
      have hmem : ¬ d.apiId ∉ ids.map Prod.fst := fun hnot => by
        rw [lookup_eq_none_iff.2 hnot] at hid
        cases hid
      constructor
      · intro h
        cases h
      · rintro ⟨-, -, hfree⟩
        exact absurd (hfree _ List.mem_cons_self).1 hmem
    | none =>
      cases hpath : paths.lookup (normalizedPath d) with
      | some prev =>
        have hmem : ¬ normalizedPath d ∉ paths.map Prod.fst := fun hnot => by
          rw [lookup_eq_none_iff.2 hnot] at hpath
          cases hpath
        constructor
        · intro h
          cases h
        · rintro ⟨-, -, hfree⟩
          exact absurd (hfree _ List.mem_cons_self).2 hmem
      | none =>
        rw [lookup_eq_none_iff] at hid hpath
        show checkUnique sources _ _ rest = .ok u ↔ _
        rw [ih]
        simp only [List.map_cons, List.nodup_cons, List.mem_cons, forall_eq_or_imp, List.mem_map, not_or]
        constructor
        · rintro ⟨hids, hpaths, hfree⟩
          refine ⟨⟨?_, hids⟩, ⟨?_, hpaths⟩, ⟨by simpa using hid, by simpa using hpath⟩, fun q hq => ?_⟩
          · rintro ⟨q, hq, heq⟩
            exact (hfree q hq).1.1 heq
          · rintro ⟨q, hq, heq⟩
            exact (hfree q hq).2.1 heq
          · exact ⟨(hfree q hq).1.2, (hfree q hq).2.2⟩
        · rintro ⟨⟨hid', hids⟩, ⟨hpath', hpaths⟩, -, hfree⟩
          refine ⟨hids, hpaths, fun q hq => ⟨⟨fun heq => hid' ⟨q, hq, heq⟩, (hfree q hq).1⟩,
            ⟨fun heq => hpath' ⟨q, hq, heq⟩, (hfree q hq).2⟩⟩⟩

/-- No two of the definitions share an id or a path. -/
structure ConflictFree (defs : List (ApiDefinition B)) : Prop where
  apiIds : (defs.map ApiDefinition.apiId).Nodup
  listenPaths : (defs.map normalizedPath).Nodup

theorem checkConflicts_eq_ok {defs : List (ApiDefinition B)} {u : Unit} :
    checkConflicts defs = .ok u ↔ ConflictFree defs := by
  rw [checkConflicts, checkUnique_eq_ok, List.map_map, List.map_map]
  constructor
  · rintro ⟨hids, hpaths, -⟩
    exact ⟨hids, hpaths⟩
  · rintro ⟨hids, hpaths⟩
    exact ⟨hids, hpaths, by simp⟩

theorem ConflictFree.perm {defs defs' : List (ApiDefinition B)} (h : ConflictFree defs) (hperm : defs.Perm defs') :
    ConflictFree defs' where
  apiIds := ((hperm.map _).nodup_iff).1 h.apiIds
  listenPaths := ((hperm.map _).nodup_iff).1 h.listenPaths

/-- The definitions of a conflict-free set are told apart by their ids. -/
theorem ConflictFree.eq_of_apiId {defs : List (ApiDefinition B)} (h : ConflictFree defs) {a b : ApiDefinition B}
    (ha : a ∈ defs) (hb : b ∈ defs) (heq : a.apiId = b.apiId) : a = b :=
  List.inj_on_of_nodup_map h.apiIds ha hb heq

/-- They are told apart by where they listen. -/
theorem ConflictFree.eq_of_listenPath {defs : List (ApiDefinition B)} (h : ConflictFree defs) {a b : ApiDefinition B}
    (ha : a ∈ defs) (hb : b ∈ defs) (heq : normalizedPath a = normalizedPath b) : a = b :=
  List.inj_on_of_nodup_map h.listenPaths ha hb heq

end Unique

/-! ### The merged set -/

theorem byApiId_trans (a b d : ApiDefinition B) (hab : byApiId a b = true) (hbd : byApiId b d = true) :
    byApiId a d = true := by
  simp only [byApiId, decide_eq_true_eq] at *
  exact le_trans hab hbd

theorem byApiId_total (a b : ApiDefinition B) : (byApiId a b || byApiId b a) = true := by
  simpa [byApiId] using le_total a.apiId b.apiId

/-- **When sources merge**: exactly if their definitions together are conflict-free, into these sorted by id. -/
theorem mergeSources_eq_ok {fileDefs storageDefs defs : List (ApiDefinition B)} :
    mergeSources fileDefs storageDefs = .ok defs ↔
      ConflictFree (fileDefs ++ storageDefs) ∧ (fileDefs ++ storageDefs).mergeSort byApiId = defs := by
  have hcheck : (fileDefs.map (fun d => (d, "file")) ++ storageDefs.map fun d => (d, "storage")).map Prod.fst =
      fileDefs ++ storageDefs := by
    simp [Function.comp_def]
  have hmap {β : Type} (f : ApiDefinition B → β) :
      ((fileDefs.map (fun d => (d, "file")) ++ storageDefs.map fun d => (d, "storage")).map fun p => f p.1) =
        (fileDefs ++ storageDefs).map f := by
    rw [← hcheck, List.map_map, Function.comp_def]
  simp only [mergeSources, bind_eq_ok, pure_eq_ok, checkUnique_eq_ok, hmap, List.map_nil, List.not_mem_nil,
    not_false_eq_true, and_self, implies_true, and_true]
  constructor
  · rintro ⟨-, ⟨hids, hpaths⟩, rfl⟩
    exact ⟨⟨hids, hpaths⟩, rfl⟩
  · rintro ⟨⟨hids, hpaths⟩, rfl⟩
    exact ⟨(), ⟨hids, hpaths⟩, rfl⟩

/-- Of a conflict-free set there is one order by id. -/
theorem ConflictFree.mergeSort_perm {defs defs' : List (ApiDefinition B)} (h : ConflictFree defs)
    (hperm : defs.Perm defs') : defs.mergeSort byApiId = defs'.mergeSort byApiId := by
  have hsorted (l : List (ApiDefinition B)) : (l.mergeSort byApiId).Pairwise fun a b => byApiId a b = true :=
    List.pairwise_mergeSort byApiId_trans byApiId_total l
  refine List.Perm.eq_of_pairwise (fun a b ha hb hab hba => ?_) (hsorted defs) (hsorted defs')
    ((List.mergeSort_perm _ _).trans (hperm.trans (List.mergeSort_perm _ _).symm))
  have ha : a ∈ defs := (List.mergeSort_perm _ _).mem_iff.1 ha
  have hb : b ∈ defs := hperm.mem_iff.2 ((List.mergeSort_perm _ _).mem_iff.1 hb)
  simp only [byApiId, decide_eq_true_eq] at hab hba
  exact h.eq_of_apiId ha hb (le_antisymm hab hba)

/-- **The merged set depends on the definitions alone**, not on the order a source lists them in or on the source
that has them. -/
theorem mergeSources_perm {fileDefs storageDefs fileDefs' storageDefs' defs : List (ApiDefinition B)}
    (hperm : (fileDefs ++ storageDefs).Perm (fileDefs' ++ storageDefs'))
    (h : mergeSources fileDefs storageDefs = .ok defs) : mergeSources fileDefs' storageDefs' = .ok defs := by
  rw [mergeSources_eq_ok] at h ⊢
  obtain ⟨hfree, rfl⟩ := h
  exact ⟨hfree.perm hperm, (hfree.mergeSort_perm hperm).symm⟩

/-- What is loaded from files is conflict-free, and each definition passed its own checks. -/
theorem of_loadDir {c : Crates B} {yaml : String → Except String (ApiDefinition B)} {dir : String}
    {entries : Except String (List (Except String SourceFile))} {defs : List (ApiDefinition B)}
    (h : loadDir c yaml dir entries = .ok defs) : ConflictFree defs ∧ ∀ d ∈ defs, d.validate c = .ok () := by
  simp only [loadDir, bind_eq_ok, pure_eq_ok] at h
  obtain ⟨files, -, found, hfound, u, hcheck, rfl⟩ := h
  refine ⟨(checkConflicts_eq_ok.1 hcheck).perm (List.mergeSort_perm _ _).symm, fun d hd => ?_⟩
  obtain ⟨entry, -, hload⟩ := mem_filterMapM hfound ((List.mergeSort_perm _ _).mem_iff.1 hd)
  simp only [loadFile, bind_eq_ok, mapError_eq_ok] at hload
  obtain ⟨file, -, hload⟩ := hload
  cases hext : extension file.name with
  | none => simp [hext] at hload
  | some ext =>
    simp only [hext] at hload
    split_ifs at hload
    · simp only [bind_eq_ok, mapError_eq_ok, pure_eq_ok, Option.some.injEq] at hload
      obtain ⟨raw, -, d', -, v, hvalid, rfl⟩ := hload
      exact hvalid
    · simp at hload

end G2way.Core.Loader
