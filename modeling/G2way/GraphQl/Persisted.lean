import G2way.GraphQl.Sync
import G2way.Lib.JsonPlace
import G2way.Lib.Pattern

/-!
# Persisted endpoints

A persisted query is called as a path: `PersistedQuery::validate` of
`g2-core/src/graphql.rs` accepts its template, `GraphQlLayer::from_config` makes a
pattern of it, and `substitute_variables` of `g2-middleware/src/graphql.rs` puts what
the pattern captured, percent-decoded, into the template of the variables.

## The model

The endpoint as `compilePersisted` has it, and what accepts it (`PersistedQuery.validate`)
with its messages. The `regex` crate is a parameter: of a pattern that is made of literal
characters and named groups it is taken to do what `Pattern.Fits` says, within the limit
it sets on the size of a pattern (`DocumentedRegex`). The client's side is
`percentEncode`.

## What is proved

The pattern of an accepted template matches the paths that fill it and no other, and
captures what fills each parameter (`fits_pathPieces`, `fits_unique`); what was encoded is
decoded (`percentDecode_percentEncode`). So an accepted endpoint matches and binds
exactly (`persisted_binds_exactly`): its template comes out with the strings that were
encoded into the path, with the headers it names, and otherwise unchanged. That it is
unchanged but for the path's strings does not hold: `$header.<name>` is a reference too
(`header_reference_replaced`).
-/

namespace G2way.GraphQl

open G2way.Core G2way.Lib G2way.Lib.Result G2way.Lib.Pattern G2way.Middleware

variable {Num Sch : Type}

/-! ### Acceptance -/

/-- `validate_relative_path`. -/
def validateRelativePath (path field : String) : Except String Unit := do
  ensure (Text.startsWith "/" path) ("`" ++ field ++ "` must start with '/', got `" ++ path ++ "`")
  ensure (!path.toList.contains '?' && !path.toList.contains '#')
    ("`" ++ field ++ "` must not contain a query string or fragment: `" ++ path ++ "`")
  ensure (!(1 < path.utf8ByteSize && ((Text.split '/' path).drop 1).any (· = "")))
    ("`" ++ field ++ "` must not contain empty segments: `" ++ path ++ "`")

/-- The segments of a path template. -/
def templateSegments (path : String) : List String := (Text.split '/' path).drop 1

/-- A segment that looks like a parameter. -/
def isParameter (segment : String) : Bool :=
  segment.toList.head? = some '{' || segment.toList.getLast? = some '}'

/-- A name that a parameter may have. -/
def validParameterName (name : String) : Bool :=
  name ≠ "" && (name.toList.all fun c => c.isAlphanum || c = '_') && !name.toList.head?.any Char.isDigit

/-- One round of the loop over the segments; `seen` are the parameters so far. -/
def declareParameter (field : String) (seen : List String) (segment : String) : Except String (List String) :=
  if isParameter segment then do
    let name := (templateParameter segment).getD ""
    ensure (validParameterName name)
      ("`" ++ field ++ "` parameter segment `" ++ segment ++ "` must be `\x7bname\x7d` with an " ++
        "alphanumeric/underscore name not starting with a digit")
    ensure (name ∉ seen) ("`" ++ field ++ "` declares parameter `\x7b" ++ name ++ "\x7d` more than once")
    return seen ++ [name]
  else .ok seen

section Template

variable (params : List String) (field : String)

mutual

/-- `walk` of `validate_variable_template`. -/
def walkTemplate : Json Num → Except String Unit
  | .string s =>
    match Text.stripPrefix "$path." s with
    | some name =>
      ensure (name ∈ params)
        ("`" ++ field ++ "` references `$path." ++ name ++ "` but the path declares no `\x7b" ++ name ++
          "\x7d` parameter")
    | none => .ok ()
  | .array items => walkItems items
  | .object members => walkMembers members
  | _ => .ok ()

/-- The items of an array. -/
def walkItems : List (Json Num) → Except String Unit
  | [] => .ok ()
  | v :: rest => do walkTemplate v; walkItems rest

/-- The members of an object. -/
def walkMembers : List (String × Json Num) → Except String Unit
  | [] => .ok ()
  | (_, v) :: rest => do walkTemplate v; walkMembers rest

end

end Template

/-- The operation that a persisted query selects is in its document. -/
def checkOperationName (field : String → String) (pq : PersistedQuery Num) (doc : Document) : Except String Unit :=
  ensure (doc.getOperation pq.operationName).isSome <|
    match pq.operationName with
    | some name => "`" ++ field "operation_name" ++ "` (`" ++ name ++ "`) does not name an operation in the document"
    | none => "`" ++ field "operation" ++ "` defines multiple operations; set `operation_name` to pick one"

/-- The template of the variables is an object whose references are declared. -/
def checkVariables (field : String) (params : List String) : Option (Json Num) → Except String Unit
  | none => .ok ()
  | some (.object members) => walkMembers params field members
  | some _ => .error ("`" ++ field ++ "` must be a JSON object")

/-- `PersistedQuery::validate`, with the document. -/
def PersistedQuery.validate (c : SchemaCrates Num Sch) (schema : Sch) (pq : PersistedQuery Num) (index : ℕ) :
    Except String ValidDocument := do
  let field := fun name => "graphql.persisted_queries[" ++ toString index ++ "]." ++ name
  ensure (transformMethods.any (Text.eqIgnoreAsciiCase · pq.method))
    ("`" ++ field "method" ++ "` must be one of " ++ ", ".intercalate transformMethods ++ " (got `" ++ pq.method ++ "`)")
  validateRelativePath pq.path (field "path")
  let seen ← (templateSegments pq.path).foldlM (declareParameter (field "path")) []
  let doc ← (c.validate schema pq.operation).mapError fun e =>
    "`" ++ field "operation" ++ "` is not valid against the schema: " ++ reasons e
  checkOperationName field pq doc.toDocument
  checkVariables (field "variables") seen pq.vars
  return doc

/-- The parameters of the segments of a template. -/
def parameters (segments : List String) : List String := segments.filterMap templateParameter

/-- What one round of the loop declares. -/
theorem declareParameter_eq_ok {field segment : String} {seen seen' : List String}
    (h : declareParameter field seen segment = .ok seen') :
    seen' = seen ++ (templateParameter segment).toList ∧
      ∀ name, templateParameter segment = some name → validParameterName name = true ∧ name ∉ seen := by
  unfold declareParameter at h
  split_ifs at h with hparam
  · obtain ⟨u, hvalid, h⟩ := bind_eq_ok.mp h
    obtain ⟨u', hnew, h⟩ := bind_eq_ok.mp h
    rw [ensure_eq_ok] at hvalid hnew
    rw [pure_eq_ok] at h
    cases hname : templateParameter segment with
    | none =>
      rw [hname] at hvalid
      cases hvalid
    | some name =>
      simp only [hname, Option.getD_some, decide_eq_true_eq] at hvalid hnew h
      refine ⟨h.symm, fun name' hname' => ?_⟩
      obtain rfl := Option.some.inj hname'
      exact ⟨hvalid, hnew⟩
  · have hnone : templateParameter segment = none := by
      rw [templateParameter, Option.bind_eq_none_iff]
      intro rest hrest
      have hopen := Text.stripPrefix_eq_some.mp hrest
      exact absurd (by simp [isParameter, hopen]) hparam
    rw [hnone]
    refine ⟨?_, fun name hname => by cases hname⟩
    simpa using (Except.ok.inj h).symm

/-- The loop declares the parameters of the template, valid and distinct. -/
theorem foldlM_declareParameter {field : String} {segments seen seen' : List String}
    (h : segments.foldlM (declareParameter field) seen = .ok seen') (hseen : seen.Nodup) :
    seen' = seen ++ parameters segments ∧ seen'.Nodup ∧
      ∀ name ∈ parameters segments, validParameterName name = true := by
  induction segments generalizing seen with
  | nil =>
    obtain rfl := Except.ok.inj h
    exact ⟨(List.append_nil _).symm, hseen, fun _ hname => absurd hname List.not_mem_nil⟩
  | cons segment segments ih =>
    rw [List.foldlM_cons] at h
    obtain ⟨mid, hmid, h⟩ := bind_eq_ok.mp h
    obtain ⟨rfl, hsegment⟩ := declareParameter_eq_ok hmid
    have hparams : parameters (segment :: segments) = (templateParameter segment).toList ++ parameters segments := by
      rw [parameters, List.filterMap_cons]
      cases templateParameter segment <;> rfl
    have hnodup : (seen ++ (templateParameter segment).toList).Nodup := by
      cases hname : templateParameter segment with
      | none => simpa using hseen
      | some name =>
        rw [Option.toList_some, List.nodup_append]
        refine ⟨hseen, List.nodup_singleton _, fun a ha b hb hab => ?_⟩
        rw [List.mem_singleton.mp hb] at hab
        exact (hsegment name hname).2 (hab ▸ ha)
    obtain ⟨hseen', hnodup', hvalid⟩ := ih h hnodup
    refine ⟨by rw [hseen', hparams, List.append_assoc], hnodup', fun name hname => ?_⟩
    rw [hparams] at hname
    rcases List.mem_append.mp hname with hname | hname
    · exact (hsegment name (Option.mem_toList.mp hname)).1
    · exact hvalid name hname

/-! ### References -/

section Template

variable {params : List String} {field : String}

/-- Every `$path.<name>` is to one of the parameters. -/
def References (params : List String) (strings : List String) : Prop :=
  ∀ s ∈ strings, ∀ name, Text.stripPrefix "$path." s = some name → name ∈ params

theorem references_append {l l' : List String} :
    References params (l ++ l') ↔ References params l ∧ References params l' := by
  simp only [References, List.mem_append, or_imp, forall_and]

mutual

/-- The walk accepts the templates whose references are declared. -/
theorem walkTemplate_eq_ok : ∀ v : Json Num, walkTemplate params field v = .ok () ↔ References params v.strings
  | .null => by simp [walkTemplate, References, Json.strings]
  | .bool _ => by simp [walkTemplate, References, Json.strings]
  | .number _ => by simp [walkTemplate, References, Json.strings]
  | .string s => by
    simp only [walkTemplate, References, Json.strings, List.mem_singleton, forall_eq]
    cases hname : Text.stripPrefix "$path." s with
    | none => simp
    | some name => simp [ensure_eq_ok]
  | .array items => by simpa only [walkTemplate, Json.strings] using walkItems_eq_ok items
  | .object members => by simpa only [walkTemplate, Json.strings] using walkMembers_eq_ok members

theorem walkItems_eq_ok : ∀ items : List (Json Num),
    walkItems params field items = .ok () ↔ References params (Json.stringsOfItems items)
  | [] => by simp [walkItems, References, Json.stringsOfItems]
  | v :: rest => by
    rw [walkItems, Json.stringsOfItems, references_append, ← walkTemplate_eq_ok v, ← walkItems_eq_ok rest, bind_eq_ok]
    exact ⟨fun ⟨_, h, h'⟩ => ⟨h, h'⟩, fun ⟨h, h'⟩ => ⟨_, h, h'⟩⟩

theorem walkMembers_eq_ok : ∀ members : List (String × Json Num),
    walkMembers params field members = .ok () ↔ References params (Json.stringsOfMembers members)
  | [] => by simp [walkMembers, References, Json.stringsOfMembers]
  | (_, v) :: rest => by
    rw [walkMembers, Json.stringsOfMembers, references_append, ← walkTemplate_eq_ok v, ← walkMembers_eq_ok rest,
      bind_eq_ok]
    exact ⟨fun ⟨_, h, h'⟩ => ⟨h, h'⟩, fun ⟨h, h'⟩ => ⟨_, h, h'⟩⟩

end

end Template

/-- What an accepted persisted query is like. -/
structure AcceptedEndpoint (c : SchemaCrates Num Sch) (schema : Sch) (pq : PersistedQuery Num) (doc : ValidDocument) : Prop where
  method : Text.toAsciiUppercase pq.method ∈ transformMethods
  nodup : (parameters (templateSegments pq.path)).Nodup
  names : ∀ name ∈ parameters (templateSegments pq.path), validParameterName name = true
  document : c.validate schema pq.operation = .ok doc
  references : ∀ template ∈ pq.vars, References (parameters (templateSegments pq.path)) template.strings

theorem PersistedQuery.accepted {c : SchemaCrates Num Sch} {schema : Sch} {pq : PersistedQuery Num} {index : ℕ}
    {doc : ValidDocument} (h : pq.validate c schema index = .ok doc) : AcceptedEndpoint c schema pq doc := by
  unfold PersistedQuery.validate at h
  obtain ⟨_, hmethod, h⟩ := bind_eq_ok.mp h
  obtain ⟨_, hpath, h⟩ := bind_eq_ok.mp h
  obtain ⟨seen, hseen, h⟩ := bind_eq_ok.mp h
  obtain ⟨doc', hdoc, h⟩ := bind_eq_ok.mp h
  obtain ⟨_, hoperation, h⟩ := bind_eq_ok.mp h
  obtain ⟨_, hvars, h⟩ := bind_eq_ok.mp h
  obtain rfl := pure_eq_ok.mp h
  obtain ⟨rfl, hnodup, hnames⟩ := foldlM_declareParameter hseen List.nodup_nil
  rw [List.nil_append] at hnodup hvars
  refine ⟨toAsciiUppercase_mem (ensure_eq_ok.mp hmethod), hnodup, hnames, mapError_eq_ok.mp hdoc, fun template htemplate => ?_⟩
  rw [Option.mem_def] at htemplate
  rw [htemplate] at hvars
  unfold checkVariables at hvars
  split at hvars
  · cases ‹some template = none›
  · next members heq =>
    obtain rfl := Option.some.inj heq
    exact walkMembers_eq_ok members |>.mp hvars
  · cases hvars

/-! ### The pattern -/

/-- The pieces that a segment is in the pattern. -/
def segmentPieces (segment : String) : List Piece :=
  match templateParameter segment with
  | some name => [.group name]
  | none => literals segment.toList

/-- The pieces of the segments, each behind its slash. -/
def pathPieces (segments : List String) : List Piece :=
  segments.flatMap fun segment => .literal '/' :: segmentPieces segment

theorem pathPieces_cons (segment : String) (segments : List String) :
    pathPieces (segment :: segments) = .literal '/' :: (segmentPieces segment ++ pathPieces segments) := rfl

theorem toList_escapeRegex (s : String) : (escapeRegex s).toList = (literals s.toList).flatMap Piece.text := by
  rw [escapeRegex, String.toList_ofList, literals, List.flatMap_map]
  rfl

theorem toList_segment (segment : String) :
    ("/" ++ match templateParameter segment with
      | some name => "(?P<" ++ name ++ ">[^/]+)"
      | none => escapeRegex segment).toList = (Piece.literal '/' :: segmentPieces segment).flatMap Piece.text := by
  have hslash : (Piece.literal '/').text = "/".toList := by decide
  rw [String.toList_append, List.flatMap_cons, hslash, segmentPieces]
  cases templateParameter segment with
  | none => rw [toList_escapeRegex]
  | some name => simp [Piece.text]

/-- The pattern of an endpoint is a pattern of literals and groups. -/
theorem persistedPattern_eq_text (listenPrefix path : String) :
    persistedPattern listenPrefix path =
      Pattern.text (literals listenPrefix.toList ++ pathPieces (templateSegments path)) := by
  apply String.toList_injective
  have hjoin : ∀ segments : List String,
      (String.join (segments.map fun segment =>
        "/" ++ match templateParameter segment with
          | some name => "(?P<" ++ name ++ ">[^/]+)"
          | none => escapeRegex segment)).toList = (pathPieces segments).flatMap Piece.text := by
    intro segments
    induction segments with
    | nil => rfl
    | cons segment segments ih =>
      rw [List.map_cons, String.join_cons, String.toList_append, toList_segment, ih, pathPieces_cons,
        ← List.cons_append, List.flatMap_append]
  rw [persistedPattern, Pattern.text, String.toList_ofList, List.flatMap_append, ← toList_escapeRegex, ← hjoin]
  simp only [String.toList_append, List.append_assoc]
  rw [show "^".toList = ['^'] from String.toList_ofList, show "$".toList = ['$'] from String.toList_ofList]
  rfl

theorem names_literals (l : List Char) : Pattern.names (literals l) = [] := by
  rw [Pattern.names, literals, List.filterMap_map]
  exact List.filterMap_eq_nil_iff.mpr fun _ _ => rfl

theorem names_append (ps qs : List Piece) : Pattern.names (ps ++ qs) = Pattern.names ps ++ Pattern.names qs :=
  List.filterMap_append

theorem names_pathPieces (segments : List String) : Pattern.names (pathPieces segments) = parameters segments := by
  induction segments with
  | nil => rfl
  | cons segment segments ih =>
    rw [pathPieces_cons, ← List.singleton_append, names_append, names_append, ih, parameters, parameters,
      List.filterMap_cons, segmentPieces]
    cases templateParameter segment with
    | none => rw [names_literals]; rfl
    | some name => rfl

/-! ### What the pattern matches -/

/-- A segment with its parameter filled. -/
def fillSegment (assign : String → String) (segment : String) : String :=
  match templateParameter segment with
  | some name => assign name
  | none => segment

/-- The segments with their parameters filled, each behind its slash. -/
def filledPath (segments : List String) (assign : String → String) : List Char :=
  segments.flatMap fun segment => '/' :: (fillSegment assign segment).toList

/-- Each parameter is filled by one segment that is not empty. -/
def Fills (segments : List String) (assign : String → String) : Prop :=
  ∀ name ∈ parameters segments, assign name ≠ "" ∧ '/' ∉ (assign name).toList

section

variable {segments : List String} {assign : String → String} {s : List Char} {caps : List (String × String)}

theorem mem_parameters_cons {segment name : String} :
    name ∈ parameters (segment :: segments) ↔ templateParameter segment = some name ∨ name ∈ parameters segments := by
  simp [parameters]

/-- Only the parameters matter. -/
theorem filledPath_congr {assign' : String → String} (h : ∀ name ∈ parameters segments, assign name = assign' name) :
    filledPath segments assign = filledPath segments assign' := by
  induction segments with
  | nil => rfl
  | cons segment segments ih =>
    have htail := ih fun name hname => h name (mem_parameters_cons.mpr (.inr hname))
    have hhead : fillSegment assign segment = fillSegment assign' segment := by
      unfold fillSegment
      cases hname : templateParameter segment with
      | none => rfl
      | some name => exact h name (mem_parameters_cons.mpr (.inl hname))
    simp only [filledPath, List.flatMap_cons] at htail ⊢
    rw [hhead, htail]

/-- What fills the template fits, and is captured. -/
theorem fits_filledPath (h : Fills segments assign) :
    Fits (pathPieces segments) (filledPath segments assign)
      ((parameters segments).map fun name => (name, assign name)) := by
  induction segments with
  | nil => exact .nil
  | cons segment segments ih =>
    have htail := ih fun name hname => h name (mem_parameters_cons.mpr (.inr hname))
    rw [pathPieces_cons, filledPath, List.flatMap_cons, List.cons_append, parameters, List.filterMap_cons]
    refine .literal ?_
    unfold segmentPieces fillSegment
    cases hname : templateParameter segment with
    | none => exact fits_literals_append.mpr ⟨_, rfl, htail⟩
    | some name =>
      obtain ⟨hne, hslash⟩ := h name (mem_parameters_cons.mpr (.inl hname))
      have hgroup : Fits (.group name :: pathPieces segments) _ _ :=
        .group (fun hnil => hne (String.toList_eq_nil_iff.mp hnil)) hslash htail
      rwa [String.ofList_toList] at hgroup

/-- What fits the rest of a template is nothing, or goes on behind a slash. -/
theorem head_of_fits (h : Fits (pathPieces segments) s caps) : ∀ c ∈ s.head?, c = '/' := by
  cases segments with
  | nil =>
    obtain ⟨rfl, -⟩ := fits_nil.mp h
    exact fun c hc => absurd hc (Option.not_mem_none c)
  | cons segment segments =>
    obtain ⟨t, rfl, -⟩ := fits_literal_cons.mp h
    exact fun c hc => (Option.some.inj hc).symm

/-- What fits fills the template, if its parameters are distinct. -/
theorem exists_fills_of_fits (hnodup : (parameters segments).Nodup) (h : Fits (pathPieces segments) s caps) :
    ∃ assign, Fills segments assign ∧ s = filledPath segments assign := by
  induction segments generalizing s caps with
  | nil =>
    obtain ⟨rfl, -⟩ := fits_nil.mp h
    exact ⟨id, fun name hname => absurd hname List.not_mem_nil, rfl⟩
  | cons segment segments ih =>
    obtain ⟨t, rfl, hsegment⟩ := fits_literal_cons.mp h
    rw [parameters, List.filterMap_cons] at hnodup
    cases hname : templateParameter segment with
    | none =>
      simp only [segmentPieces, hname] at hsegment hnodup
      obtain ⟨t', rfl, hrest⟩ := fits_literals_append.mp hsegment
      obtain ⟨assign, hfills, rfl⟩ := ih hnodup hrest
      refine ⟨assign, fun name hmem => hfills name ?_, ?_⟩
      · exact (mem_parameters_cons.mp hmem).resolve_left (by simp [hname])
      · simp [filledPath, fillSegment, hname]
    | some name =>
      simp only [segmentPieces, hname] at hsegment hnodup
      obtain ⟨v, t', caps', rfl, rfl, hv, hslash, hrest⟩ := fits_group_cons.mp hsegment
      obtain ⟨hnew, hnodup⟩ := List.nodup_cons.mp hnodup
      obtain ⟨assign, hfills, rfl⟩ := ih hnodup hrest
      have hkept : ∀ other ∈ parameters segments,
          Function.update assign name (String.ofList v) other = assign other := fun other hother =>
        Function.update_of_ne (fun heq : other = name => hnew (heq ▸ hother)) _ _
      refine ⟨Function.update assign name (String.ofList v), fun other hmem => ?_, ?_⟩
      · rcases mem_parameters_cons.mp hmem with hother | hother
        · obtain rfl := Option.some.inj (hname.symm.trans hother)
          rw [Function.update_self, String.toList_ofList]
          exact ⟨fun hnil => hv (by simpa using congrArg String.toList hnil), hslash⟩
        · rw [hkept other hother]
          exact hfills other hother
      · rw [← filledPath_congr fun other hother => (hkept other hother)]
        simp [filledPath, fillSegment, hname]

/-- A stretch without slashes ends where the next slash or the end is. -/
theorem append_inj_of_slash {v v' t t' : List Char} (hv : '/' ∉ v) (hv' : '/' ∉ v') (ht : ∀ c ∈ t.head?, c = '/')
    (ht' : ∀ c ∈ t'.head?, c = '/') (h : v ++ t = v' ++ t') : v = v' ∧ t = t' := by
  have htake : ∀ {v t : List Char}, '/' ∉ v → (∀ c ∈ t.head?, c = '/') → (v ++ t).takeWhile (· ≠ '/') = v := by
    intro v t hv ht
    rw [List.takeWhile_append_of_pos fun c hc => by simpa using fun heq : c = '/' => hv (heq ▸ hc)]
    cases t with
    | nil => simp
    | cons c t => simp [ht c rfl]
  have hvv : v = v' := by rw [← htake hv ht, h, htake hv' ht']
  exact ⟨hvv, List.append_cancel_left (hvv ▸ h)⟩

/-- **A path fills a template in one way.** -/
theorem fits_unique {caps' : List (String × String)} (h : Fits (pathPieces segments) s caps)
    (h' : Fits (pathPieces segments) s caps') : caps = caps' := by
  induction segments generalizing s caps caps' with
  | nil => rw [(fits_nil.mp h).2, (fits_nil.mp h').2]
  | cons segment segments ih =>
    obtain ⟨t, rfl, hs⟩ := fits_literal_cons.mp h
    obtain ⟨t', heq, hs'⟩ := fits_literal_cons.mp h'
    obtain rfl := (List.cons.inj heq).2
    cases hname : templateParameter segment with
    | none =>
      simp only [segmentPieces, hname] at hs hs'
      obtain ⟨r, rfl, hr⟩ := fits_literals_append.mp hs
      obtain ⟨r', heq, hr'⟩ := fits_literals_append.mp hs'
      obtain rfl := List.append_cancel_left heq
      exact ih hr hr'
    | some name =>
      simp only [segmentPieces, hname] at hs hs'
      obtain ⟨v, r, rest, rfl, rfl, -, hv, hr⟩ := fits_group_cons.mp hs
      obtain ⟨v', r', rest', heq, rfl, -, hv', hr'⟩ := fits_group_cons.mp hs'
      obtain ⟨rfl, rfl⟩ := append_inj_of_slash hv hv' (head_of_fits hr) (head_of_fits hr') heq
      rw [ih hr hr']

end

/-! ### Percent-encoding -/

/-- The unreserved characters of a URI, as bytes. -/
def isUnreserved (b : UInt8) : Bool :=
  48 ≤ b && b ≤ 57 || 65 ≤ b && b ≤ 90 || 97 ≤ b && b ≤ 122 || b = 45 || b = 46 || b = 95 || b = 126

/-- A hexadecimal digit, capital or small. -/
def hexChar (capital : Bool) (n : ℕ) : Char := Char.ofNat (if n < 10 then 48 + n else if capital then 55 + n else 87 + n)

/-- A byte in a path: every byte outside the unreserved set is encoded. -/
def encodeByte (capital : Bool) (b : UInt8) : List Char :=
  if isUnreserved b then [Char.ofNat b.toNat]
  else ['%', hexChar capital (b.toNat / 16), hexChar capital (b.toNat % 16)]

/-- What a client puts into a path for a string. -/
def percentEncode (capital : Bool) (s : String) : String := String.ofList ((Text.utf8 s).flatMap (encodeByte capital))

theorem toNat_of_isUnreserved {b : UInt8} (h : isUnreserved b = true) :
    (Char.ofNat b.toNat).toNat = b.toNat ∧ b.toNat < 128 := by
  have hascii : b.toNat < 128 := by
    simp only [isUnreserved, Bool.or_eq_true, Bool.and_eq_true, decide_eq_true_eq, UInt8.le_iff_toNat_le,
      ← UInt8.toNat_inj, UInt8.reduceToNat] at h
    omega
  exact ⟨Text.toNat_ofNat (by omega), hascii⟩

theorem hexChar_spec : ∀ capital, ∀ n < 16, String.utf8EncodeChar (hexChar capital n) = [UInt8.ofNat (hexChar capital n).toNat] ∧
    Text.hexDigit (UInt8.ofNat (hexChar capital n).toNat) = some n ∧ hexChar capital n ≠ '/' := by
  decide

/-- A byte that is no escape is kept. -/
theorem percentDecodeBytes_cons {b : UInt8} (h : b ≠ 37) (rest : List UInt8) :
    percentDecodeBytes false (b :: rest) = b :: percentDecodeBytes false rest := by
  rw [percentDecodeBytes]
  · simp
  · rintro hi lo rest' rfl
    exact absurd rfl h

/-- An encoded byte is decoded. -/
theorem percentDecodeBytes_encodeByte (capital : Bool) (b : UInt8) (rest : List UInt8) :
    percentDecodeBytes false ((encodeByte capital b).flatMap String.utf8EncodeChar ++ rest) =
      b :: percentDecodeBytes false rest := by
  unfold encodeByte
  split_ifs with h
  · have hne : b ≠ 37 := fun heq => absurd h (by rw [heq]; decide)
    obtain ⟨hchar, hascii⟩ := toNat_of_isUnreserved h
    have hencode : String.utf8EncodeChar (Char.ofNat b.toNat) = [b] := by
      rw [Text.utf8EncodeChar_ascii (by rwa [hchar]), hchar, UInt8.ofNat_toNat]
    rw [List.flatMap_cons, List.flatMap_nil, List.append_nil, hencode, List.singleton_append, percentDecodeBytes_cons hne]
  · have hlt : b.toNat < 256 := b.toNat_lt
    obtain ⟨hhi, hhigh, -⟩ := hexChar_spec capital (b.toNat / 16) (by omega)
    obtain ⟨hlo, hlow, -⟩ := hexChar_spec capital (b.toNat % 16) (by omega)
    have hpercent : String.utf8EncodeChar '%' = [37] := by decide
    rw [List.flatMap_cons, List.flatMap_cons, List.flatMap_cons, List.flatMap_nil, hpercent, hhi, hlo]
    simp only [List.append_nil, List.cons_append, List.nil_append]
    rw [percentDecodeBytes, hhigh, hlow]
    simp only
    congr 1
    apply UInt8.toNat_inj.mp
    rw [UInt8.toNat_ofNat']
    omega

/-- **What was encoded is decoded.** -/
theorem percentDecode_percentEncode (capital : Bool) (s : String) : percentDecode false (percentEncode capital s) = s := by
  have hbytes : ∀ bytes : List UInt8,
      percentDecodeBytes false ((bytes.flatMap (encodeByte capital)).flatMap String.utf8EncodeChar) = bytes := by
    intro bytes
    induction bytes with
    | nil => rfl
    | cons b bytes ih => rw [List.flatMap_cons, List.flatMap_append, percentDecodeBytes_encodeByte, ih]
  rw [percentDecode, percentEncode, Text.utf8, String.toList_ofList, hbytes, Text.fromUtf8Lossy_utf8]

/-- No slash is left, whatever the string. -/
theorem slash_not_mem_percentEncode (capital : Bool) (s : String) : '/' ∉ (percentEncode capital s).toList := by
  rw [percentEncode, String.toList_ofList, List.mem_flatMap]
  rintro ⟨b, -, hb⟩
  unfold encodeByte at hb
  split_ifs at hb with h
  · have hchar := (toNat_of_isUnreserved h).1
    rw [← List.mem_singleton.mp hb] at hchar
    have hslash : b = 47 := UInt8.toNat_inj.mp hchar.symm
    exact absurd h (by rw [hslash]; decide)
  · have hlt : b.toNat < 256 := b.toNat_lt
    have hhi := (hexChar_spec capital (b.toNat / 16) (by omega)).2.2
    have hlo := (hexChar_spec capital (b.toNat % 16) (by omega)).2.2
    simp only [List.mem_cons, List.not_mem_nil, or_false] at hb
    rcases hb with hb | hb | hb
    · exact absurd hb (by decide)
    · exact hhi hb.symm
    · exact hlo hb.symm

theorem percentEncode_ne_empty {capital : Bool} {s : String} (h : s ≠ "") : percentEncode capital s ≠ "" := by
  intro hempty
  have hdecoded := percentDecode_percentEncode capital s
  rw [hempty] at hdecoded
  exact h hdecoded.symm

/-! ### Matching and binding -/

/-- What the `regex` crate documents of a pattern of literals and groups: within its limit on the size of a
pattern it compiles, and a match captures what fits. -/
def DocumentedRegex (regex : String → Except String (String → Option (List (String × String))))
    (withinLimit : String → Prop) : Prop :=
  ∀ ps, (Pattern.names ps).Nodup → (∀ name ∈ Pattern.names ps, validParameterName name = true) →
    withinLimit (Pattern.text ps) →
    ∃ captures, regex (Pattern.text ps) = .ok captures ∧
      (∀ s caps, captures s = some caps → Fits ps s.toList caps) ∧
      ∀ s, captures s = none → ∀ caps, ¬ Fits ps s.toList caps

/-- The path that calls an endpoint with its parameters so filled. -/
def endpointPath (listenPrefix path : String) (assign : String → String) : String :=
  String.ofList (listenPrefix.toList ++ filledPath (templateSegments path) assign)

/-- A string of a template, bound: a parameter, a header where the request has it as text, or itself. -/
def boundString (assign : String → String) (headers : HeaderMap) (s : String) : Json Num :=
  match Text.stripPrefix "$path." s with
  | some name => .string (assign name)
  | none =>
    match Text.stripPrefix "$header." s with
    | some name => ((headers.getStr (Text.toAsciiLowercase name)).map .string).getD .null
    | none => .string s

/-- **An endpoint matches and binds exactly.** -/
structure BindsExactly (listenPrefix path : String) (p : CompiledPersisted Num) : Prop where
  matched : ∀ request, (p.captures request).isSome = true ↔
    ∃ assign, Fills (templateSegments path) assign ∧ request = endpointPath listenPrefix path assign
  /-- Every reference is bound to the segment that fills its parameter. -/
  bound : ∀ caps assign, Fills (templateSegments path) assign →
    p.captures (endpointPath listenPrefix path assign) = some caps →
    ∀ template ∈ p.vars, ∀ s ∈ template.strings, ∀ name, Text.stripPrefix "$path." s = some name →
      caps.lookup name = some (assign name) ∧
        ∀ headers, (substituteString caps headers s : Json Num) = .string (percentDecode false (assign name))
  /-- What is encoded into the path comes out in the template. -/
  roundTrip : ∀ assign capital, (∀ name ∈ parameters (templateSegments path), assign name ≠ "") →
    ∃ caps, p.captures (endpointPath listenPrefix path (percentEncode capital ∘ assign)) = some caps ∧
      ∀ template ∈ p.vars, ∀ headers,
        substituteVariables caps headers template = template.mapStrings (boundString assign headers)

section

variable {caps : List (String × String)} {headers : HeaderMap}

mutual

/-- `substitute_variables` puts a value for each string. -/
theorem substituteVariables_eq : ∀ v : Json Num,
    substituteVariables caps headers v = v.mapStrings (substituteString caps headers)
  | .null | .bool _ | .number _ | .string _ => rfl
  | .array items => congrArg Json.array (substituteItems_eq items)
  | .object members => congrArg Json.object (substituteMembers_eq members)

theorem substituteItems_eq : ∀ items : List (Json Num),
    substituteItems caps headers items = Json.mapStringsOfItems (substituteString caps headers) items
  | [] => rfl
  | v :: rest => by rw [substituteItems, Json.mapStringsOfItems, substituteVariables_eq v, substituteItems_eq rest]

theorem substituteMembers_eq : ∀ members : List (String × Json Num),
    substituteMembers caps headers members = Json.mapStringsOfMembers (substituteString caps headers) members
  | [] => rfl
  | (k, v) :: rest => by
    rw [substituteMembers, Json.mapStringsOfMembers, substituteVariables_eq v, substituteMembers_eq rest]

end

theorem substituteString_of_path {s name segment : String} (hname : Text.stripPrefix "$path." s = some name)
    (hlookup : caps.lookup name = some segment) :
    (substituteString caps headers s : Json Num) = .string (percentDecode false segment) := by
  rw [substituteString, hname]
  simp only [hlookup]
  rfl

theorem lookup_map_assign {names : List String} (assign : String → String) {name : String} (h : name ∈ names) :
    (names.map fun n => (n, assign n)).lookup name = some (assign name) := by
  induction names with
  | nil => cases h
  | cons n names ih =>
    rw [List.map_cons, List.lookup_cons]
    by_cases hn : name = n
    · subst hn
      simp
    · rw [beq_false_of_ne hn]
      exact ih ((List.mem_cons.mp h).resolve_left hn)

end

theorem parseMethod_of_mem {method : String} (h : Text.toAsciiUppercase method ∈ transformMethods) :
    parseMethod (Text.toAsciiUppercase method) = some (Text.toAsciiUppercase method) := by
  have htable : ∀ m ∈ transformMethods, parseMethod m = some m := by decide
  exact htable _ h

section

variable {listenPrefix path : String} {captures : String → Option (List (String × String))}
  (hsome : ∀ s caps, captures s = some caps →
    Fits (literals listenPrefix.toList ++ pathPieces (templateSegments path)) s.toList caps)
  (hnone : ∀ s, captures s = none → ∀ caps,
    ¬ Fits (literals listenPrefix.toList ++ pathPieces (templateSegments path)) s.toList caps)
include hsome

/-- A match captures what fills the parameters. -/
theorem captures_endpointPath {assign : String → String} {caps : List (String × String)}
    (hfills : Fills (templateSegments path) assign) (h : captures (endpointPath listenPrefix path assign) = some caps) :
    caps = (parameters (templateSegments path)).map fun name => (name, assign name) := by
  obtain ⟨t, heq, hfits⟩ := fits_literals_append.mp (hsome _ _ h)
  rw [endpointPath, String.toList_ofList] at heq
  obtain rfl := List.append_cancel_left heq
  exact fits_unique hfits (fits_filledPath hfills)

theorem exists_fills_of_captures (hnodup : (parameters (templateSegments path)).Nodup) {request : String}
    {caps : List (String × String)} (h : captures request = some caps) :
    ∃ assign, Fills (templateSegments path) assign ∧ request = endpointPath listenPrefix path assign := by
  obtain ⟨t, heq, hfits⟩ := fits_literals_append.mp (hsome _ _ h)
  obtain ⟨assign, hfills, rfl⟩ := exists_fills_of_fits hnodup hfits
  refine ⟨assign, hfills, ?_⟩
  rw [endpointPath, ← heq, String.ofList_toList]

include hnone

theorem exists_captures {assign : String → String} (hfills : Fills (templateSegments path) assign) :
    captures (endpointPath listenPrefix path assign) =
      some ((parameters (templateSegments path)).map fun name => (name, assign name)) := by
  cases h : captures (endpointPath listenPrefix path assign) with
  | some caps => rw [captures_endpointPath hsome hfills h]
  | none =>
    refine absurd ?_ (hnone _ h ((parameters (templateSegments path)).map fun name => (name, assign name)))
    rw [fits_literals_append, endpointPath, String.toList_ofList]
    exact ⟨_, rfl, fits_filledPath hfills⟩

end

/-- An endpoint binds exactly if its captures are what fits, its parameters are distinct and its references
declared. -/
theorem bindsExactly_of_fits {listenPrefix path : String} {p : CompiledPersisted Num}
    (hnodup : (parameters (templateSegments path)).Nodup)
    (hreferences : ∀ template ∈ p.vars, References (parameters (templateSegments path)) template.strings)
    (hsome : ∀ s caps, p.captures s = some caps →
      Fits (literals listenPrefix.toList ++ pathPieces (templateSegments path)) s.toList caps)
    (hnone : ∀ s, p.captures s = none → ∀ caps,
      ¬ Fits (literals listenPrefix.toList ++ pathPieces (templateSegments path)) s.toList caps) :
    BindsExactly listenPrefix path p where
  matched request := by
    constructor
    · intro hmatch
      obtain ⟨caps, hcaps⟩ := Option.isSome_iff_exists.mp hmatch
      exact exists_fills_of_captures hsome hnodup hcaps
    · rintro ⟨assign, hfills, rfl⟩
      rw [exists_captures hsome hnone hfills]
      rfl
  bound caps assign hfills hcaps template htemplate s hs name hname := by
    have hlookup : caps.lookup name = some (assign name) := by
      rw [captures_endpointPath hsome hfills hcaps]
      exact lookup_map_assign assign (hreferences template htemplate s hs name hname)
    exact ⟨hlookup, fun headers => substituteString_of_path hname hlookup⟩
  roundTrip assign capital hassign := by
    have hfills : Fills (templateSegments path) (percentEncode capital ∘ assign) := fun name hname =>
      ⟨percentEncode_ne_empty (hassign name hname), slash_not_mem_percentEncode capital _⟩
    refine ⟨_, exists_captures hsome hnone hfills, fun template htemplate headers => ?_⟩
    rw [substituteVariables_eq]
    refine Json.mapStrings_congr template fun s hs => ?_
    cases hname : Text.stripPrefix "$path." s with
    | none =>
      cases hheader : Text.stripPrefix "$header." s with
      | none => simp only [substituteString, boundString, hname, hheader]
      | some header => simp only [substituteString, boundString, hname, hheader]
    | some name =>
      have hlookup := lookup_map_assign (percentEncode capital ∘ assign)
        (hreferences template htemplate s hs name hname)
      rw [substituteString_of_path hname hlookup, Function.comp_apply, percentDecode_percentEncode, boundString, hname]

/-- **An accepted endpoint matches and binds exactly**, under every listen path. -/
theorem persisted_binds_exactly (c : SchemaCrates Num Sch) (withinLimit : String → Prop)
    (hregex : DocumentedRegex c.regex withinLimit) (schema : Sch) (pq : PersistedQuery Num) (index : ℕ)
    (doc : ValidDocument) (h : pq.validate c schema index = .ok doc) (listenPath : String)
    (hlimit : withinLimit (persistedPattern (Text.trimEndMatches '/' listenPath) pq.path)) :
    ∃ p, compilePersisted c (Text.trimEndMatches '/' listenPath) schema pq index = .ok (p, doc) ∧ p.vars = pq.vars ∧
      BindsExactly (Text.trimEndMatches '/' listenPath) pq.path p := by
  have haccepted := PersistedQuery.accepted h
  generalize Text.trimEndMatches '/' listenPath = listenPrefix at *
  rw [persistedPattern_eq_text] at hlimit
  have hnames : Pattern.names (literals listenPrefix.toList ++ pathPieces (templateSegments pq.path)) =
      parameters (templateSegments pq.path) := by
    rw [names_append, names_literals, names_pathPieces, List.nil_append]
  obtain ⟨captures, hcompile, hsome, hnone⟩ :=
    hregex _ (hnames ▸ haccepted.nodup) (hnames ▸ haccepted.names) hlimit
  refine ⟨⟨Text.toAsciiUppercase pq.method, captures, pq.operation, pq.operationName, pq.vars⟩, ?_, rfl,
    bindsExactly_of_fits haccepted.nodup haccepted.references hsome hnone⟩
  rw [compilePersisted, parseMethod_of_mem haccepted.method, persistedPattern_eq_text, hcompile, haccepted.document]
  rfl

/-! ### An engine and two endpoints -/

/-- An engine for patterns of literals and groups. -/
def sampleRegex (pattern : String) : Except String (String → Option (List (String × String))) :=
  match Pattern.read pattern with
  | some ps => .ok fun s => Pattern.capture ps s.toList
  | none => .error "unexpected"

theorem sampleRegex_documented : DocumentedRegex sampleRegex fun _ => True := by
  intro ps _ hnames _
  have hread : Pattern.read (Pattern.text ps) = some ps := by
    refine Pattern.read_text fun name hname hmem => ?_
    have hvalid := hnames name hname
    simp only [validParameterName, Bool.and_eq_true, List.all_eq_true] at hvalid
    exact absurd (hvalid.1.2 '>' hmem) (by decide)
  refine ⟨fun s => Pattern.capture ps s.toList, ?_, fun s caps h => Pattern.fits_of_capture h, fun s h caps hfits => ?_⟩
  · rw [sampleRegex, hread]
  · have hsome := Pattern.capture_isSome_of_fits hfits
    simp only [h] at hsome
    cases hsome

/-- The crates of the sample API, with that engine. -/
def sampleCrates : SchemaCrates ℕ (List Name) := { helloCrates with regex := sampleRegex }

/-- An endpoint with a parameter. -/
def greetingEndpoint : PersistedQuery ℕ where
  method := "get"
  path := "/hello/\x7bname\x7d"
  operation := helloText
  vars := some (.object [("to", .array [.string "$path.name"]), ("times", .number 2)])


theorem PersistedQuery.validate_eq_ok {c : SchemaCrates Num Sch} {schema : Sch} {pq : PersistedQuery Num} {index : ℕ}
    {doc : ValidDocument} (seen : List String)
    (hmethod : transformMethods.any (Text.eqIgnoreAsciiCase · pq.method) = true)
    (hpath : ∀ field, validateRelativePath pq.path field = .ok ())
    (hseen : ∀ field, (templateSegments pq.path).foldlM (declareParameter field) [] = .ok seen)
    (hdoc : c.validate schema pq.operation = .ok doc) (hop : (doc.getOperation pq.operationName).isSome = true)
    (hvars : ∀ field, checkVariables field seen pq.vars = .ok ()) : pq.validate c schema index = .ok doc := by
  unfold PersistedQuery.validate
  refine bind_eq_ok.mpr ⟨(), ensure_eq_ok.mpr hmethod, bind_eq_ok.mpr ⟨(), hpath _, bind_eq_ok.mpr ⟨seen, hseen _, ?_⟩⟩⟩
  refine bind_eq_ok.mpr ⟨doc, mapError_eq_ok.mpr hdoc, bind_eq_ok.mpr ⟨(), ensure_eq_ok.mpr hop, ?_⟩⟩
  exact bind_eq_ok.mpr ⟨(), hvars _, rfl⟩

theorem validateRelativePath_eq_ok {path : String} (hslash : Text.startsWith "/" path = true)
    (hplain : (!path.toList.contains '?' && !path.toList.contains '#') = true)
    (hsegments : (templateSegments path).any (· = "") = false) (field : String) :
    validateRelativePath path field = .ok () := by
  have hempty : (!(decide (1 < path.utf8ByteSize) && (templateSegments path).any (· = ""))) = true := by
    rw [hsegments, Bool.and_false]
    rfl
  exact bind_eq_ok.mpr ⟨(), ensure_eq_ok.mpr hslash, bind_eq_ok.mpr ⟨(), ensure_eq_ok.mpr hplain, ensure_eq_ok.mpr hempty⟩⟩

theorem declareParameter_of_valid {segment name : String} {seen : List String} (hparam : isParameter segment = true)
    (hname : templateParameter segment = some name) (hvalid : validParameterName name = true) (hnew : name ∉ seen)
    (field : String) : declareParameter field seen segment = .ok (seen ++ [name]) := by
  rw [declareParameter, if_pos hparam, hname]
  exact bind_eq_ok.mpr ⟨(), ensure_eq_ok.mpr hvalid, bind_eq_ok.mpr ⟨(), ensure_eq_ok.mpr (decide_eq_true hnew), rfl⟩⟩

theorem greetingEndpoint_validate : greetingEndpoint.validate sampleCrates ["hello"] 0 = .ok helloDocument := by
  have hsegments : templateSegments greetingEndpoint.path = ["hello", "\x7bname\x7d"] := by decide
  have hname : templateParameter "\x7bname\x7d" = some "name" := by decide
  have hreference : Text.stripPrefix "$path." "$path.name" = some "name" := by decide
  refine PersistedQuery.validate_eq_ok ["name"] (by decide)
    (validateRelativePath_eq_ok (by decide) (by decide) (by decide)) (fun field => ?_) rfl (by decide)
    (fun field => (walkMembers_eq_ok _).mpr ?_)
  · rw [hsegments, List.foldlM_cons, declareParameter, if_neg (by decide), ok_bind, List.foldlM_cons,
      declareParameter_of_valid (by decide) hname (by decide) List.not_mem_nil]
    rfl
  · simp [References, Json.stringsOfMembers, Json.strings, Json.stringsOfItems, hreference]

/-- The endpoint of a greeting is called with a slash and a letter of two bytes in the name. -/
theorem persisted_binds_exactly_greeting :
    ∃ p, compilePersisted sampleCrates "/gql" ["hello"] greetingEndpoint 0 = .ok (p, helloDocument) ∧
      ∃ caps, p.captures "/gql/hello/a%2F%C3%A9" = some caps ∧
        p.vars.map (substituteVariables caps []) =
          some (.object [("to", .array [.string "a/é"]), ("times", .number 2)]) := by
  have htrim : Text.trimEndMatches '/' "/gql/" = "/gql" := by decide
  have hpath : endpointPath "/gql" greetingEndpoint.path (percentEncode true ∘ fun _ => "a/é") =
      "/gql/hello/a%2F%C3%A9" := by decide
  have hreference : Text.stripPrefix "$path." "$path.name" = some "name" := by decide
  obtain ⟨p, hcompile, hvars, hbinds⟩ := persisted_binds_exactly sampleCrates (fun _ => True) sampleRegex_documented
    ["hello"] greetingEndpoint 0 helloDocument greetingEndpoint_validate "/gql/" trivial
  rw [htrim] at hcompile hbinds
  obtain ⟨caps, hcaps, hround⟩ := hbinds.roundTrip (fun _ => "a/é") true fun _ _ => by decide
  rw [hpath] at hcaps
  refine ⟨p, hcompile, caps, hcaps, ?_⟩
  have htemplate : p.vars = some (.object [("to", .array [.string "$path.name"]), ("times", .number 2)]) := hvars
  rw [htemplate, Option.map_some, hround _ htemplate []]
  simp [Json.mapStrings, Json.mapStringsOfMembers, Json.mapStringsOfItems, boundString, hreference]

/-- An endpoint whose variable is a header. -/
def tenantEndpoint : PersistedQuery ℕ where
  method := "get"
  path := "/hello"
  operation := helloText
  vars := some (.object [("tenant", .string "$header.x-tenant")])

/-- A string of a template with the parameters bound and nothing else. -/
def parameterString (assign : String → String) (s : String) : Json Num :=
  match Text.stripPrefix "$path." s with
  | some name => .string (assign name)
  | none => .string s

theorem tenantEndpoint_validate : tenantEndpoint.validate helloCrates ["hello"] 0 = .ok helloDocument := by
  have hsegments : templateSegments tenantEndpoint.path = ["hello"] := by decide
  have hreference : Text.stripPrefix "$path." "$header.x-tenant" = none := by decide
  refine PersistedQuery.validate_eq_ok [] (by decide)
    (validateRelativePath_eq_ok (by decide) (by decide) (by decide)) (fun field => ?_) rfl (by decide)
    (fun field => (walkMembers_eq_ok _).mpr ?_)
  · rw [hsegments, List.foldlM_cons, declareParameter, if_neg (by decide)]
    rfl
  · simp [References, Json.stringsOfMembers, Json.strings, hreference]

/-- **A reference to a header is replaced too**, by `null` where the request has no such header. -/
theorem header_reference_replaced :
    tenantEndpoint.validate helloCrates ["hello"] 0 = .ok helloDocument ∧
      ∃ p, compilePersisted helloCrates "/gql" ["hello"] tenantEndpoint 0 = .ok (p, helloDocument) ∧
        ∃ caps, p.captures "/gql/hello" = some caps ∧ ∃ template, p.vars = some template ∧
          ∀ assign, substituteVariables caps [] template ≠ template.mapStrings (parameterString assign) := by
  have hpath : Text.stripPrefix "$path." "$header.x-tenant" = none := by decide
  have hheader : Text.stripPrefix "$header." "$header.x-tenant" = some "x-tenant" := by decide
  have habsent : HeaderMap.getStr [] (Text.toAsciiLowercase "x-tenant") = none := rfl
  refine ⟨tenantEndpoint_validate, _, rfl, [], rfl, _, rfl, fun assign h => ?_⟩
  simp [substituteVariables, substituteMembers, substituteString, Json.mapStrings, Json.mapStringsOfMembers,
    parameterString, hpath, hheader, habsent] at h

end G2way.GraphQl
