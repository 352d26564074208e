import G2way.Lib.Text
import Mathlib.Data.List.Nodup

/-!
# Patterns of literals and groups

The part of the syntax of regular expressions that a path template needs: literal
characters, and named groups of one or more characters other than a slash,
`(?P<name>[^/]+)`, between `^` and `$`.

## What is proved

`Fits` is what a text of that kind means: which strings it matches, and what its
groups capture. A literal stretch and a group are peeled off one at a time
(`fits_literals_append`, `fits_group_cons`). `read` takes the text of a pattern apart
again (`read_text`) and `capture` matches by trying every split (`fits_of_capture`,
`capture_isSome_of_fits`), so that there is an engine that does what `Fits` says.
-/

namespace G2way.Lib.Pattern

/-- A piece of a pattern. -/
inductive Piece where
  | literal (c : Char)
  /-- One or more characters other than `/`. -/
  | group (name : String)
  deriving DecidableEq, Repr

/-- The characters that have a meaning of their own. -/
def metas : List Char := "\\.+*?()|[]\x7b\x7d^$#&-~".toList

/-- A piece as it is written. -/
def Piece.text : Piece → List Char
  | .literal c => if c ∈ metas then ['\\', c] else [c]
  | .group name => "(?P<".toList ++ name.toList ++ ">[^/]+)".toList

/-- The text of a pattern, between its anchors. -/
def text (ps : List Piece) : String := String.ofList ('^' :: (ps.flatMap Piece.text ++ ['$']))

/-- The names of the groups. -/
def names (ps : List Piece) : List String :=
  ps.filterMap fun
    | .literal _ => none
    | .group name => some name

/-- A string that the pattern matches, with what the groups capture. -/
inductive Fits : List Piece → List Char → List (String × String) → Prop where
  | nil : Fits [] [] []
  | literal {c : Char} {ps : List Piece} {s : List Char} {caps : List (String × String)} (h : Fits ps s caps) :
      Fits (.literal c :: ps) (c :: s) caps
  | group {name : String} {ps : List Piece} {v s : List Char} {caps : List (String × String)} (hv : v ≠ [])
      (hslash : '/' ∉ v) (h : Fits ps s caps) :
      Fits (.group name :: ps) (v ++ s) ((name, String.ofList v) :: caps)

/-- A stretch of literal characters. -/
def literals (l : List Char) : List Piece := l.map .literal

section

variable {ps : List Piece} {s : List Char} {caps : List (String × String)}

theorem fits_nil : Fits [] s caps ↔ s = [] ∧ caps = [] := by
  constructor
  · rintro ⟨⟩
    exact ⟨rfl, rfl⟩
  · rintro ⟨rfl, rfl⟩
    exact .nil

theorem fits_literal_cons {c : Char} : Fits (.literal c :: ps) s caps ↔ ∃ t, s = c :: t ∧ Fits ps t caps := by
  constructor
  · rintro ⟨⟩
    exact ⟨_, rfl, ‹_›⟩
  · rintro ⟨t, rfl, h⟩
    exact .literal h

theorem fits_group_cons {name : String} :
    Fits (.group name :: ps) s caps ↔
      ∃ v t caps', s = v ++ t ∧ caps = (name, String.ofList v) :: caps' ∧ v ≠ [] ∧ '/' ∉ v ∧ Fits ps t caps' := by
  constructor
  · rintro ⟨⟩
    exact ⟨_, _, _, rfl, rfl, ‹_›, ‹_›, ‹_›⟩
  · rintro ⟨v, t, caps', rfl, rfl, hv, hslash, h⟩
    exact .group hv hslash h

theorem fits_literals_append {l : List Char} :
    Fits (literals l ++ ps) s caps ↔ ∃ t, s = l ++ t ∧ Fits ps t caps := by
  induction l generalizing s with
  | nil => simp [literals]
  | cons c l ih =>
    constructor
    · intro h
      obtain ⟨t, rfl, htail⟩ := fits_literal_cons.mp h
      obtain ⟨t', rfl, hrest⟩ := ih.mp htail
      exact ⟨t', rfl, hrest⟩
    · rintro ⟨t, rfl, h⟩
      exact .literal (ih.mpr ⟨t, rfl, h⟩)

end

/-! ### Reading a pattern -/

/-- The pieces of a text up to its `$`. -/
def readPieces : ℕ → List Char → Option (List Piece)
  | 0, _ => none
  | _ + 1, ['$'] => some []
  | n + 1, '\\' :: c :: rest => (readPieces n rest).map (.literal c :: ·)
  | n + 1, '(' :: '?' :: 'P' :: '<' :: rest =>
    let name := rest.takeWhile (· ≠ '>')
    (readPieces n ((rest.drop name.length).drop 7)).map (.group (String.ofList name) :: ·)
  | n + 1, c :: rest => if c ∈ metas then none else (readPieces n rest).map (.literal c :: ·)
  | _ + 1, [] => none

/-- The pieces of a pattern. -/
def read (pattern : String) : Option (List Piece) :=
  match pattern.toList with
  | '^' :: rest => readPieces (rest.length + 1) rest
  | _ => none

/-- A literal is read back. -/
theorem readPieces_literal (n : ℕ) (c : Char) (rest : List Char) :
    readPieces (n + 1) ((Piece.literal c).text ++ rest) = (readPieces n rest).map (.literal c :: ·) := by
  simp only [Piece.text]
  split_ifs with hc
  · rfl
  · have hdollar : c ≠ '$' := fun h => hc (h ▸ by decide)
    have hslash : c ≠ '\\' := fun h => hc (h ▸ by decide)
    have hopen : c ≠ '(' := fun h => hc (h ▸ by decide)
    simp only [List.cons_append, List.nil_append]
    rw [readPieces, if_neg hc]
    · simp [hdollar]
    · simp [hslash]
    · simp [hopen]

/-- A group is read back, if its name does not end early. -/
theorem readPieces_group (n : ℕ) {name : String} (hname : '>' ∉ name.toList) (rest : List Char) :
    readPieces (n + 1) ((Piece.group name).text ++ rest) = (readPieces n rest).map (.group name :: ·) := by
  have htake : (name.toList ++ '>' :: ("[^/]+)".toList ++ rest)).takeWhile (· ≠ '>') = name.toList := by
    rw [List.takeWhile_append_of_pos]
    · simp
    · intro c hc
      simpa using fun h : c = '>' => hname (h ▸ hc)
  have hdrop : ((name.toList ++ '>' :: ("[^/]+)".toList ++ rest)).drop name.toList.length).drop 7 = rest := by
    rw [List.drop_left]
    rfl
  have htext : (Piece.group name).text ++ rest =
      '(' :: '?' :: 'P' :: '<' :: (name.toList ++ '>' :: ("[^/]+)".toList ++ rest)) := by
    simp [Piece.text]
  rw [htext, readPieces]
  simp only [htake, hdrop, String.ofList_toList]

theorem readPieces_flatMap {ps : List Piece} (hnames : ∀ name ∈ names ps, '>' ∉ name.toList) (n : ℕ) :
    readPieces (n + ps.length + 1) (ps.flatMap Piece.text ++ ['$']) = some ps := by
  induction ps generalizing n with
  | nil => rfl
  | cons p ps ih =>
    have hfuel : n + (p :: ps).length + 1 = (n + ps.length + 1) + 1 := by
      simp only [List.length_cons]
      omega
    rw [hfuel, List.flatMap_cons, List.append_assoc]
    cases p with
    | literal c =>
      rw [readPieces_literal _ c, ih hnames]
      rfl
    | group name =>
      rw [readPieces_group _ (hnames name List.mem_cons_self),
        ih fun m hm => hnames m (List.mem_cons_of_mem _ hm)]
      rfl

theorem Piece.length_text_pos (p : Piece) : 0 < p.text.length := by
  cases p with
  | literal c =>
    simp only [Piece.text]
    split_ifs <;> simp
  | group name => simp [Piece.text]

theorem length_le_length_flatMap (ps : List Piece) : ps.length ≤ (ps.flatMap Piece.text).length := by
  induction ps with
  | nil => exact le_refl 0
  | cons p ps ih =>
    have hp := p.length_text_pos
    rw [List.flatMap_cons, List.length_append, List.length_cons]
    omega

/-- **A pattern is read back from its text**, if no name ends early. -/
theorem read_text {ps : List Piece} (hnames : ∀ name ∈ names ps, '>' ∉ name.toList) : read (text ps) = some ps := by
  have hlength : ps.length ≤ (ps.flatMap Piece.text ++ ['$']).length := by
    rw [List.length_append]
    exact (length_le_length_flatMap ps).trans (Nat.le_add_right _ _)
  obtain ⟨n, hn⟩ := Nat.exists_eq_add_of_le' hlength
  rw [read, text, String.toList_ofList]
  simp only
  rw [hn, readPieces_flatMap hnames]

/-! ### Matching -/

/-- The captures of a match, by trying every split. -/
def capture : List Piece → List Char → Option (List (String × String))
  | [], [] => some []
  | [], _ :: _ => none
  | .literal _ :: _, [] => none
  | .literal c :: ps, d :: s => if d = c then capture ps s else none
  | .group name :: ps, s =>
    (List.range s.length).findSome? fun n =>
      if '/' ∈ s.take (n + 1) then none
      else (capture ps (s.drop (n + 1))).map ((name, String.ofList (s.take (n + 1))) :: ·)

theorem fits_of_capture {ps : List Piece} {s : List Char} {caps : List (String × String)}
    (h : capture ps s = some caps) : Fits ps s caps := by
  induction ps generalizing s caps with
  | nil =>
    cases s with
    | nil =>
      obtain rfl := Option.some.inj h
      exact .nil
    | cons c s => cases h
  | cons p ps ih =>
    cases p with
    | literal c =>
      cases s with
      | nil => cases h
      | cons d s =>
        rw [capture] at h
        split_ifs at h with hd
        exact hd ▸ .literal (ih h)
    | group name =>
      rw [capture] at h
      obtain ⟨n, hn, hsplit⟩ := List.exists_of_findSome?_eq_some h
      split_ifs at hsplit with hslash
      obtain ⟨caps', hcaps, rfl⟩ := Option.map_eq_some_iff.mp hsplit
      have hpos : s.take (n + 1) ≠ [] := by
        have hlt := List.mem_range.mp hn
        intro hnil
        have hzero := congrArg List.length hnil
        rw [List.length_take, List.length_nil] at hzero
        omega
      have hfits : Fits (.group name :: ps) (s.take (n + 1) ++ s.drop (n + 1)) _ := .group hpos hslash (ih hcaps)
      rwa [List.take_append_drop] at hfits

/-- A string that fits is matched. -/
theorem capture_isSome_of_fits {ps : List Piece} {s : List Char} {caps : List (String × String)}
    (h : Fits ps s caps) : (capture ps s).isSome = true := by
  induction h with
  | nil => rfl
  | literal _ ih => rwa [capture, if_pos rfl]
  | @group name ps v s caps hv hslash _ ih =>
    rw [capture, List.findSome?_isSome_iff]
    have hlen : v.length - 1 + 1 = v.length := Nat.succ_pred_eq_of_pos (List.length_pos_iff.mpr hv)
    refine ⟨v.length - 1, ?_, ?_⟩
    · rw [List.mem_range, List.length_append]
      omega
    · rw [hlen, List.take_left, List.drop_left, if_neg hslash, Option.isSome_map]
      exact ih

end G2way.Lib.Pattern
