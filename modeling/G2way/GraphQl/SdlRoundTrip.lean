import G2way.GraphQl.Introspected
import G2way.Lib.SdlRead

/-!
# The converted schema is the upstream's

`introspection_to_sdl` of `g2-middleware/src/graphql_sync.rs` prints the
introspection response of an upstream as a type system document, which is then
compiled in the upstream's place.

## The model

`Schema.document` is the document of a schema, without what every schema predefines
("redeclarations fail validation"). A description is in it as the block string that
stands in the text, a deprecation as the directive; "argument descriptions are
dropped".

## What is proved

`introspection_round_trips`: if no type reference is nested deeper than the query
fetches, the text is read as the document of the schema, as far as the upstream
lists the schema; otherwise there is no text. `reads_description` and
`ends_reason` say that a description and a reason are one literal each, whatever
stands in them. An upstream that leaves deprecated arguments out of its answer
leaves them out of the converted schema (`deprecated_argument_lost`).
-/

namespace G2way.Upstream

open G2way.Lib
open G2way.GraphQl (IntrospectionTypeRef IntrospectionInputValue escapeQuotes renderTypeRef renderDescription
  renderDeprecation renderInputValue renderArgs renderDirective renderField renderComposite renderEnumValue
  renderNamed renderType renderRoot renderSchema quoteString namedType introspectionScalars builtinDirectives
  introspectionToSdl isMeta)
open G2way.Lib.GraphQl (Name Token Reads Ends Delimits Tail blockString)
open G2way.Lib.GraphQl.Sdl (Value TypeRef Location word)

/-! ### Descriptions -/

/-- A quote at the front of an escaped line is a quote of the line, and not the first of three. -/
theorem eq_quote_of_escapeQuotes {line x r : List Char} (h : escapeQuotes line ++ '\n' :: x = '"' :: r) :
    ∃ rest, line = '"' :: rest ∧ r = escapeQuotes rest ++ '\n' :: x ∧ ∀ t, line ≠ '"' :: '"' :: '"' :: t := by
  fun_cases escapeQuotes line with
  | case1 rest => simp [escapeQuotes] at h
  | case2 c rest hnot =>
    rw [escapeQuotes] at h
    · obtain ⟨rfl, rfl⟩ := List.cons.inj h
      refine ⟨rest, rfl, rfl, ?_⟩
      intro t ht
      exact hnot t rfl (List.cons.inj ht).2
    · exact hnot
  | case3 => simp [escapeQuotes] at h

/-- An escaped line does not begin with the quotes that close a block string. -/
theorem escapeQuotes_ne_closing (line x s : List Char) : escapeQuotes line ++ '\n' :: x ≠ '"' :: '"' :: '"' :: s := by
  intro h
  obtain ⟨l₁, rfl, h₁, hnot⟩ := eq_quote_of_escapeQuotes h
  obtain ⟨l₂, rfl, h₂, -⟩ := eq_quote_of_escapeQuotes h₁.symm
  obtain ⟨l₃, rfl, -, -⟩ := eq_quote_of_escapeQuotes h₂.symm
  exact hnot l₃ rfl

/-- Puts characters before what is read of a block string. -/
def prepend (a : List Char) (o : Option (List Char × List Char)) : Option (List Char × List Char) :=
  o.map fun p => (a ++ p.1, p.2)

theorem prepend_prepend (a b : List Char) (o : Option (List Char × List Char)) :
    prepend a (prepend b o) = prepend (a ++ b) o := by
  cases o with
  | none => rfl
  | some p => simp only [prepend, Option.map_some, List.append_assoc]

/-- A character that neither closes a block string nor escapes its quotes stands in it. -/
theorem blockString_cons {c : Char} {s : List Char} (hquote : ∀ t, c :: s ≠ '"' :: '"' :: '"' :: t)
    (hescape : ∀ t, c :: s ≠ '\\' :: '"' :: '"' :: '"' :: t) : blockString (c :: s) = prepend [c] (blockString s) := by
  rw [blockString]
  · rfl
  · intro t hc hs
    exact hquote t (by rw [hc, hs])
  · intro t hc hs
    exact hescape t (by rw [hc, hs])

/-- A line with its quotes escaped stands in a block string as it was. -/
theorem blockString_escapeQuotes (line x : List Char) :
    blockString (escapeQuotes line ++ '\n' :: x) = prepend line (blockString ('\n' :: x)) := by
  fun_induction escapeQuotes line with
  | case1 rest ih =>
    have hescaped : blockString ('\\' :: '"' :: '"' :: '"' :: (escapeQuotes rest ++ '\n' :: x)) =
        prepend ['"', '"', '"'] (blockString (escapeQuotes rest ++ '\n' :: x)) := rfl
    simp only [List.cons_append]
    rw [hescaped, ih, prepend_prepend]
    rfl
  | case2 c rest hnot ih =>
    have hline : escapeQuotes (c :: rest) = c :: escapeQuotes rest := by
      rw [escapeQuotes]
      exact hnot
    rw [List.cons_append, blockString_cons, ih, prepend_prepend]
    · rfl
    · intro t ht
      refine escapeQuotes_ne_closing (c :: rest) x t ?_
      rw [hline]
      exact ht
    · intro t ht
      exact escapeQuotes_ne_closing rest x t (List.cons.inj ht).2
  | case3 =>
    cases hx : blockString ('\n' :: x) with
    | none => simp [prepend, hx]
    | some p => simp [prepend, hx]

theorem blockString_blanks {blanks : List Char} (h : ∀ c ∈ blanks, c = ' ') (s : List Char) :
    blockString (blanks ++ s) = prepend blanks (blockString s) := by
  induction blanks with
  | nil => cases hs : blockString s <;> simp [prepend, hs]
  | cons c blanks ih =>
    obtain rfl := h c (List.mem_cons_self ..)
    have htail := ih fun d hd => h d (List.mem_cons_of_mem _ hd)
    rw [List.cons_append, blockString_cons, htail, prepend_prepend]
    · rfl
    · simp
    · simp

/-- The block string a description stands in, its quotes escaped no more. -/
def blockText (indent text : String) : String :=
  "\n" ++ String.join ((Text.split '\n' text).map fun line => indent ++ line ++ "\n") ++ indent

/-- The lines of a description, as they are pushed. -/
theorem blockString_lines {indent : List Char} (h : ∀ c ∈ indent, c = ' ') (lines : List (List Char)) (x : List Char) :
    blockString ((lines.flatMap fun line => indent ++ escapeQuotes line ++ ['\n']) ++ x) =
      prepend (lines.flatMap fun line => indent ++ line ++ ['\n']) (blockString x) := by
  induction lines with
  | nil => cases hx : blockString x <;> simp [prepend, hx]
  | cons line lines ih =>
    have hnewline : ∀ y, blockString ('\n' :: y) = prepend ['\n'] (blockString y) := fun _ => rfl
    simp only [List.append_assoc] at ih
    simp only [List.flatMap_cons, List.append_assoc, List.cons_append, List.nil_append]
    rw [blockString_blanks h, blockString_escapeQuotes, hnewline, ih, prepend_prepend, prepend_prepend, prepend_prepend]
    simp only [List.append_assoc, List.cons_append, List.nil_append]

/-- A description is one literal, whatever stands in it. -/
theorem reads_description {indent : String} (hindent : ∀ c ∈ indent.toList, c = ' ') {text : String} (htext : text ≠ "") :
    Reads (renderDescription (some text) indent) [.block (blockText indent text)] := by
  intro rest
  have hrender : (renderDescription (some text) indent).toList = indent.toList ++ '"' :: '"' :: '"' ::
      ('\n' :: (((text.toList.splitOn '\n').flatMap fun line => indent.toList ++ escapeQuotes line ++ ['\n']) ++
        (indent.toList ++ '"' :: '"' :: '"' :: ['\n']))) := by
    rw [renderDescription]
    · simp only [Text.split, List.map_map, String.toList_append, String.toList_join, List.flatMap_map,
        Function.comp_apply, String.toList_ofList, List.append_assoc]
      rfl
    · exact htext
  have hblock : blockString ('\n' :: (((text.toList.splitOn '\n').flatMap fun line =>
      indent.toList ++ escapeQuotes line ++ ['\n']) ++ (indent.toList ++ '"' :: '"' :: '"' :: '\n' :: rest))) =
      some ((blockText indent text).toList, '\n' :: rest) := by
    have hnewline : ∀ y, blockString ('\n' :: y) = prepend ['\n'] (blockString y) := fun _ => rfl
    have hclose : blockString ('"' :: '"' :: '"' :: '\n' :: rest) = some ([], '\n' :: rest) := rfl
    rw [hnewline, blockString_lines hindent, blockString_blanks hindent, hclose, prepend_prepend, prepend_prepend]
    simp [prepend, blockText, Text.split, List.flatMap_map, String.toList_join, List.map_map]
  have hblanks : Reads indent [] := by
    have hmarks := Reads.marks indent (by
      rw [List.all_eq_true]
      intro c hc
      rw [hindent c hc]
      decide)
    have hnone : indent.toList.filter Lib.GraphQl.isPunctuator = [] := by
      rw [List.filter_eq_nil_iff]
      intro c hc
      rw [hindent c hc]
      decide
    rw [hnone] at hmarks
    exact hmarks
  have htokens := Lib.GraphQl.tokenize_block hblock
  rw [Lib.GraphQl.tokenize_ignored (c := '\n') (by decide) rest, String.ofList_toList] at htokens
  rw [hrender]
  simp only [List.append_assoc, List.cons_append, List.nil_append] at htokens ⊢
  rw [hblanks, htokens]
  cases Lib.GraphQl.tokenize rest <;> rfl

/-- A reason is one literal, whatever stands in it. -/
theorem ends_reason (reason : String) : Ends (quoteString reason) [.string reason] := Ends.quoted reason

/-! ### Type references -/

/-- How many wrappers a type reference has. -/
def wrappers : TypeRef → ℕ
  | .named _ nonNull => nonNull.toNat
  | .list item nonNull => nonNull.toNat + 1 + wrappers item

/-- An exclamation mark, or not. -/
def bangText (nonNull : Bool) : String := if nonNull then "!" else ""

/-- The text of a type reference. -/
def typeText : TypeRef → String
  | .named n nonNull => n.text ++ bangText nonNull
  | .list item nonNull => "[" ++ typeText item ++ "]" ++ bangText nonNull

theorem delimits_of_head {a : String} {c : Char} {cs : List Char} (h : a.toList = c :: cs)
    (hc : GraphQl.isPunctuator c = true ∨ GraphQl.isIgnored c = true) : Delimits a :=
  ⟨c, by rw [h]; rfl, hc⟩

theorem tail_bangText (nonNull : Bool) : Tail (bangText nonNull) (GraphQl.Sdl.bangTokens nonNull) := by
  cases nonNull with
  | true => exact .inr ⟨delimits_of_head rfl (.inl rfl), (Reads.marks "!" rfl).ends⟩
  | false => exact .inl ⟨rfl, rfl⟩

theorem ends_typeText (t : TypeRef) : Ends (typeText t) t.tokens := by
  induction t with
  | named n nonNull => exact (Ends.name n).tail (tail_bangText nonNull)
  | list item nonNull ih =>
    have hopen : Reads "[" [.punctuator '['] := Reads.marks "[" rfl
    have hclose : Reads "]" [.punctuator ']'] := Reads.marks "]" rfl
    have hlist := ((hopen.append_ends ih).append_reads (delimits_of_head rfl (.inl rfl)) hclose).ends
    have htext := hlist.tail (tail_bangText nonNull)
    simpa only [typeText, GraphQl.Sdl.TypeRef.tokens, List.cons_append, List.nil_append, List.append_assoc] using htext

theorem kindOf_not_wrapper (s : Schema) (n : Name) : s.kindOf n ≠ "NON_NULL" ∧ s.kindOf n ≠ "LIST" := by
  have hkind : ∀ body : TypeBody, body.kind ≠ "NON_NULL" ∧ body.kind ≠ "LIST" := by
    intro body
    cases body <;> exact ⟨by simp [TypeBody.kind], by simp [TypeBody.kind]⟩
  rw [Schema.kindOf]
  cases s.types.find? fun t => t.name = n with
  | none => exact ⟨by simp, by simp⟩
  | some t => exact hkind t.body

theorem renderTypeRef_namedRef (s : Schema) (n : Name) : renderTypeRef (namedRef s n) = .ok n.text := by
  obtain ⟨hnonNull, hlist⟩ := kindOf_not_wrapper s n
  rw [namedRef, renderTypeRef, if_neg hnonNull, if_neg hlist]
  rfl

/-- Under enough levels a wrapper is printed around what it wraps. -/
theorem renderTypeRef_nonNullRef {inner : ℕ → IntrospectionTypeRef} {text : String} {levels n : ℕ} (nonNull : Bool)
    (h : ∀ levels, n ≤ levels → renderTypeRef (inner levels) = .ok text) (hle : nonNull.toNat + n ≤ levels) :
    renderTypeRef (nonNullRef nonNull inner levels) = .ok (text ++ bangText nonNull) := by
  cases nonNull with
  | true =>
    rw [Bool.toNat_true] at hle
    obtain ⟨levels, rfl⟩ : ∃ m, levels = m + 1 := ⟨levels - 1, by omega⟩
    rw [nonNullRef, if_pos rfl, wrapperRef, renderTypeRef, if_pos rfl]
    rw [h levels (by omega)]
    rfl
  | false =>
    rw [Bool.toNat_false, Nat.zero_add] at hle
    rw [nonNullRef, if_neg Bool.false_ne_true, h levels hle, bangText, if_neg Bool.false_ne_true, String.append_empty]

theorem renderTypeRef_shallow (s : Schema) (t : TypeRef) {levels : ℕ} (h : wrappers t ≤ levels) :
    renderTypeRef (introspectedRef s t levels) = .ok (typeText t) := by
  induction t generalizing levels with
  | named n nonNull =>
    exact renderTypeRef_nonNullRef (n := 0) nonNull (fun _ _ => renderTypeRef_namedRef s n) h
  | list item nonNull ih =>
    refine renderTypeRef_nonNullRef (n := 1 + wrappers item) nonNull ?_ (by rw [wrappers] at h; omega)
    intro levels hle
    obtain ⟨levels, rfl⟩ : ∃ m, levels = m + 1 := ⟨levels - 1, by omega⟩
    rw [wrapperRef, renderTypeRef, if_neg (by decide), if_pos rfl]
    rw [ih (by omega)]
    rfl

/-- Under too few levels a wrapper has nothing to be printed around. -/
theorem renderTypeRef_nonNullRef_deep {inner : ℕ → IntrospectionTypeRef} {levels n : ℕ} (nonNull : Bool)
    (h : ∀ levels, levels < n → ∃ e, renderTypeRef (inner levels) = .error e) (hlt : levels < nonNull.toNat + n) :
    ∃ e, renderTypeRef (nonNullRef nonNull inner levels) = .error e := by
  cases nonNull with
  | true =>
    rw [nonNullRef, if_pos rfl]
    cases levels with
    | zero => exact ⟨_, rfl⟩
    | succ levels =>
      rw [Bool.toNat_true] at hlt
      obtain ⟨e, he⟩ := h levels (by omega)
      rw [wrapperRef, renderTypeRef, if_pos rfl]
      rw [he]
      exact ⟨e, rfl⟩
  | false =>
    rw [Bool.toNat_false, Nat.zero_add] at hlt
    exact h levels hlt

theorem renderTypeRef_deep (s : Schema) (t : TypeRef) {levels : ℕ} (h : levels < wrappers t) :
    ∃ e, renderTypeRef (introspectedRef s t levels) = .error e := by
  induction t generalizing levels with
  | named n nonNull => exact renderTypeRef_nonNullRef_deep (n := 0) nonNull (fun _ hlt => by cases hlt) h
  | list item nonNull ih =>
    refine renderTypeRef_nonNullRef_deep (n := 1 + wrappers item) nonNull ?_ (by rw [wrappers] at h; omega)
    intro levels hlt
    cases levels with
    | zero => exact ⟨_, rfl⟩
    | succ levels =>
      obtain ⟨e, he⟩ := ih (show levels < wrappers item by omega)
      rw [wrapperRef, renderTypeRef, if_neg (by decide), if_pos rfl]
      rw [he]
      exact ⟨e, rfl⟩

/-! ### The document of a schema -/

/-- The block string of a description that is not empty. -/
def descriptionOf (indent : String) (description : Option String) : Option GraphQl.Sdl.StringValue :=
  (description.filter (· ≠ "")).map fun text => .block (blockText indent text)

/-- A deprecation, as a directive. -/
def deprecationOf : Option (Option String) → List GraphQl.Sdl.Directive
  | none => []
  | some none => [⟨word "deprecated", []⟩]
  | some (some reason) => [⟨word "deprecated", [(word "reason", .string (.quoted reason))]⟩]

/-- An argument or an input field. -/
def InputValue.definition (v : InputValue) : GraphQl.Sdl.InputValue where
  description := none
  name := v.name
  type := v.type
  default := v.default
  directives := []

/-- A field. -/
def Field.definition (f : Field) : GraphQl.Sdl.Field where
  description := descriptionOf "  " f.description
  name := f.name
  arguments := f.arguments.map InputValue.definition
  type := f.type
  directives := deprecationOf f.deprecation

/-- A value of an enum. -/
def EnumValue.definition (v : EnumValue) : GraphQl.Sdl.EnumValue where
  description := descriptionOf "  " v.description
  name := v.name
  directives := deprecationOf v.deprecation

/-- What a type is. -/
def TypeBody.definition : TypeBody → GraphQl.Sdl.TypeBody
  | .scalar => .scalar
  | .object interfaces fields => .object interfaces (fields.map Field.definition)
  | .interface interfaces fields => .interface interfaces (fields.map Field.definition)
  | .union members => .union members
  | .enum values => .enum (values.map EnumValue.definition)
  | .input fields => .input (fields.map InputValue.definition)

/-- A type. -/
def TypeDefinition.definition (t : TypeDefinition) : GraphQl.Sdl.Described where
  description := descriptionOf "" t.description
  definition := .type t.name t.body.definition
  directives := []

/-- A directive. -/
def DirectiveDefinition.definition (d : DirectiveDefinition) : GraphQl.Sdl.Described where
  description := descriptionOf "" d.description
  definition := .directive d.name (d.arguments.map InputValue.definition) false d.locations
  directives := []

/-- The root operations of a schema. -/
def Schema.roots (s : Schema) : List (GraphQl.Sdl.Operation × Name) :=
  (.query, s.query) :: ((s.mutation.map (.mutation, ·)).toList ++ (s.subscription.map (.subscription, ·)).toList)

/-- A type every schema predefines. -/
def TypeDefinition.predefined (t : TypeDefinition) : Bool :=
  isMeta t.name.text ||
    match t.body with
    | .scalar => t.name.text ∈ introspectionScalars
    | _ => false

/-- A directive every schema predefines. -/
def DirectiveDefinition.predefined (d : DirectiveDefinition) : Bool := d.name.text ∈ builtinDirectives

/-- The directives of a schema that are its own. -/
def Schema.ownDirectives (s : Schema) : List DirectiveDefinition := s.directives.filter (!·.predefined)

/-- The types of a schema that are its own. -/
def Schema.ownTypes (s : Schema) : List TypeDefinition := s.types.filter (!·.predefined)

/-- The document of a schema. -/
def Schema.document (s : Schema) : GraphQl.Sdl.Document :=
  ⟨none, .schema s.roots, []⟩ ::
    (s.ownDirectives.map DirectiveDefinition.definition ++ s.ownTypes.map TypeDefinition.definition)

/-! ### The text of its parts -/

section Text

variable (server : Server) (s : Schema)

/-- The default of an argument is printed as a literal of the language. -/
def Server.Spells (v : InputValue) : Prop := ∀ d ∈ v.default, Ends (server.literal d) d.tokens

/-- The text of an argument or an input field. -/
def inputText (v : InputValue) : String :=
  v.name.text ++ ": " ++ typeText v.type ++ ((v.default.map fun d => " = " ++ server.literal d).getD "")

variable {server}

theorem ends_inputText {v : InputValue} (hv : server.Spells v) : Ends (inputText server v) v.definition.tokens := by
  have hcolon : Reads ": " [.punctuator ':'] := Reads.marks ": " rfl
  have hequals : Reads " = " [.punctuator '='] := Reads.marks " = " rfl
  have hentry := ((Ends.name v.name).append_reads (delimits_of_head rfl (.inl rfl)) hcolon).append_ends
    (ends_typeText v.type)
  have hdefault : Tail ((v.default.map fun d => " = " ++ server.literal d).getD "")
      (GraphQl.Sdl.defaultTokens v.default) := by
    cases hd : v.default with
    | none => exact .inl ⟨rfl, rfl⟩
    | some d => exact .inr ⟨(delimits_of_head rfl (.inr rfl)).append_string, hequals.append_ends (hv d hd)⟩
  have htext := hentry.tail hdefault
  simpa only [inputText, InputValue.definition, GraphQl.Sdl.InputValue.tokens, GraphQl.Sdl.descriptionTokens,
    GraphQl.Sdl.entryTokens, Option.map_none, Option.toList_none, List.flatMap_nil, List.append_nil, List.nil_append,
    List.cons_append] using htext

/-- An argument or an input field is printed if its type is not cut. -/
theorem renderInputValue_shallow {v : InputValue} (h : wrappers v.type ≤ ofTypeLevels) :
    renderInputValue (introspectedInput server s v) = .ok (inputText server v) := by
  rw [renderInputValue, introspectedInput]
  simp only [renderTypeRef_shallow s v.type h, Option.map_map]
  rfl

/-- A type reference that is printed was not cut. -/
theorem shallow_of_renderTypeRef {t : TypeRef} {text : String}
    (h : renderTypeRef (introspectedRef s t ofTypeLevels) = .ok text) : wrappers t ≤ ofTypeLevels := by
  by_contra hdeep
  obtain ⟨e, he⟩ := renderTypeRef_deep s t (Nat.lt_of_not_le hdeep)
  rw [he] at h
  cases h

theorem shallow_of_renderInputValue {v : InputValue} {text : String}
    (h : renderInputValue (introspectedInput server s v) = .ok text) : wrappers v.type ≤ ofTypeLevels := by
  rw [renderInputValue, introspectedInput] at h
  simp only [Result.bind_eq_ok] at h
  obtain ⟨ty, hty, -⟩ := h
  exact shallow_of_renderTypeRef s hty

variable (server)

/-- The text of a list of arguments. -/
def argsText (args : List InputValue) : String :=
  if args.isEmpty then "" else "(" ++ ", ".intercalate (args.map (inputText server)) ++ ")"

variable {server}

theorem tail_argsText {args : List InputValue} (h : ∀ v ∈ args, server.Spells v) :
    Tail (argsText server args)
      (GraphQl.Sdl.bracketed GraphQl.Sdl.InputValue.tokens '(' ')' (args.map InputValue.definition)) := by
  cases args with
  | nil => exact .inl ⟨rfl, rfl⟩
  | cons v args =>
    have hopen : Reads "(" [.punctuator '('] := Reads.marks "(" rfl
    have hclose : Reads ")" [.punctuator ')'] := Reads.marks ")" rfl
    have hcomma : Reads ", " [] := Reads.marks ", " rfl
    have hlist := Ends.intercalate (delimits_of_head rfl (.inr rfl)) hcomma fun v hv => ends_inputText (h v hv)
    have htext := (hopen.append_ends hlist).append_reads (delimits_of_head rfl (.inl rfl)) hclose
    refine .inr ⟨(delimits_of_head rfl (.inl rfl)).append_string.append_string, ?_⟩
    simpa only [argsText, List.isEmpty_cons, Bool.false_eq_true, if_false, GraphQl.Sdl.bracketed, List.map_cons,
      List.flatMap_cons, List.flatMap_map, List.cons_append, List.nil_append, List.append_assoc] using htext.ends

theorem renderArgs_shallow {args : List InputValue} (h : ∀ v ∈ args, wrappers v.type ≤ ofTypeLevels) :
    renderArgs (args.map (introspectedInput server s)) = .ok (argsText server args) := by
  cases args with
  | nil => rfl
  | cons v args =>
    have hlist : ((v :: args).map (introspectedInput server s)).mapM renderInputValue =
        .ok ((v :: args).map (inputText server)) :=
      Result.mapM_map_eq_ok fun w hw => renderInputValue_shallow s (h w hw)
    rw [renderArgs, argsText, List.map_cons, List.isEmpty_cons, List.isEmpty_cons, if_neg Bool.false_ne_true,
      if_neg Bool.false_ne_true, ← List.map_cons, hlist]
    rfl

theorem shallow_of_renderArgs {args : List InputValue} {text : String}
    (h : renderArgs (args.map (introspectedInput server s)) = .ok text) :
    ∀ v ∈ args, wrappers v.type ≤ ofTypeLevels := by
  intro v hv
  have hne : (args.map (introspectedInput server s)).isEmpty = false := by
    cases args with
    | nil => cases hv
    | cons w args => rfl
  rw [renderArgs, hne, if_neg Bool.false_ne_true] at h
  simp only [Result.bind_eq_ok] at h
  obtain ⟨texts, htexts, -⟩ := h
  obtain ⟨text, htext⟩ := Result.exists_mapM_eq_ok.1 ⟨texts, htexts⟩ _ (List.mem_map_of_mem hv)
  exact shallow_of_renderInputValue s htext

/-- A deprecation is printed as its directive. -/
theorem tail_deprecation (deprecation : Option (Option String)) :
    Tail (renderDeprecation deprecation.isSome deprecation.join)
      ((deprecationOf deprecation).flatMap GraphQl.Sdl.Directive.tokens) := by
  have hat : Reads " @" [.punctuator '@'] := Reads.marks " @" rfl
  have hdeprecated := hat.append_ends (Ends.name (word "deprecated"))
  match deprecation with
  | none => exact .inl ⟨rfl, rfl⟩
  | some none => exact .inr ⟨delimits_of_head rfl (.inr rfl), hdeprecated⟩
  | some (some reason) =>
    have hopen : Reads "(" [.punctuator '('] := Reads.marks "(" rfl
    have hcolon : Reads ": " [.punctuator ':'] := Reads.marks ": " rfl
    have hclose : Reads ")" [.punctuator ')'] := Reads.marks ")" rfl
    have hname := ((hdeprecated.append_reads (delimits_of_head rfl (.inl rfl)) hopen).append_ends
      (Ends.name (word "reason"))).append_reads (delimits_of_head rfl (.inl rfl)) hcolon
    have htext := (hname.append_ends (ends_reason reason)).append_reads (delimits_of_head rfl (.inl rfl)) hclose
    exact .inr ⟨(delimits_of_head rfl (.inr rfl)).append_string.append_string, htext.ends⟩

theorem blanks_none : ∀ c ∈ "".toList, c = ' ' := by simp

theorem blanks_two : ∀ c ∈ "  ".toList, c = ' ' := by simp

/-- A description is printed as its literal, or not at all. -/
theorem reads_renderDescription {indent : String} (hindent : ∀ c ∈ indent.toList, c = ' ')
    (description : Option String) :
    Reads (renderDescription description indent)
      (GraphQl.Sdl.descriptionTokens (descriptionOf indent description)) := by
  match description with
  | none => exact Reads.empty
  | some text =>
    by_cases htext : text = ""
    · rw [htext]
      exact Reads.empty
    · have hfilter : (some text).filter (· ≠ "") = some text := by simp [htext]
      rw [descriptionOf, hfilter]
      exact reads_description hindent htext

variable (server)

/-- The text of a field. -/
def fieldText (f : Field) : String :=
  renderDescription f.description "  " ++ "  " ++ f.name.text ++ argsText server f.arguments ++ ": " ++
    typeText f.type ++ renderDeprecation f.deprecation.isSome f.deprecation.join ++ "\n"

variable {server}

theorem reads_fieldText {f : Field} (h : ∀ v ∈ f.arguments, server.Spells v) :
    Reads (fieldText server f) f.definition.tokens := by
  have hblank : Reads "  " [] := Reads.marks "  " rfl
  have hcolon : Reads ": " [.punctuator ':'] := Reads.marks ": " rfl
  have hnewline : Reads "\n" [] := Reads.marks "\n" rfl
  have hname := ((reads_renderDescription blanks_two f.description).append hblank).append_ends (Ends.name f.name)
  have hargs := (hname.tail (tail_argsText h)).append_reads (delimits_of_head rfl (.inl rfl)) hcolon
  have htype := (hargs.append_ends (ends_typeText f.type)).tail (tail_deprecation f.deprecation)
  have htext := htype.append_reads (delimits_of_head rfl (.inr rfl)) hnewline
  simpa only [fieldText, Field.definition, GraphQl.Sdl.Field.tokens, List.append_nil, List.append_assoc, List.cons_append,
    List.nil_append] using htext

/-- The types of a field and of its arguments. -/
def Field.typeRefs (f : Field) : List TypeRef := f.type :: f.arguments.map (·.type)

theorem renderField_shallow {f : Field} (h : ∀ t ∈ f.typeRefs, wrappers t ≤ ofTypeLevels) :
    renderField (introspectedField server s f) = .ok (fieldText server f) := by
  have hargs : ∀ v ∈ f.arguments, wrappers v.type ≤ ofTypeLevels :=
    fun v hv => h _ (List.mem_cons_of_mem _ (List.mem_map_of_mem hv))
  rw [renderField, introspectedField]
  simp only [renderArgs_shallow s hargs, renderTypeRef_shallow s f.type (h _ (List.mem_cons_self ..))]
  rfl

theorem shallow_of_renderField {f : Field} {text : String} (h : renderField (introspectedField server s f) = .ok text) :
    ∀ t ∈ f.typeRefs, wrappers t ≤ ofTypeLevels := by
  rw [renderField, introspectedField] at h
  simp only [Result.bind_eq_ok] at h
  obtain ⟨args, hargs, ty, hty, -⟩ := h
  intro t ht
  rcases List.mem_cons.1 ht with rfl | ht
  · exact shallow_of_renderTypeRef s hty
  · obtain ⟨v, hv, rfl⟩ := List.mem_map.1 ht
    exact shallow_of_renderArgs s hargs v hv

theorem reads_renderEnumValue (v : EnumValue) : Reads (renderEnumValue (introspectedValue v)) v.definition.tokens := by
  have hblank : Reads "  " [] := Reads.marks "  " rfl
  have hnewline : Reads "\n" [] := Reads.marks "\n" rfl
  have hname := ((reads_renderDescription blanks_two v.description).append hblank).append_ends (Ends.name v.name)
  have htext := (hname.tail (tail_deprecation v.deprecation)).append_reads (delimits_of_head rfl (.inr rfl)) hnewline
  simpa only [renderEnumValue, introspectedValue, EnumValue.definition, GraphQl.Sdl.EnumValue.tokens, List.append_nil,
    List.append_assoc, List.cons_append, List.nil_append] using htext

/-! ### Types -/

variable (server)

/-- The text of an `implements`. -/
def implementsText (interfaces : List Name) : String :=
  if interfaces.isEmpty then "" else " implements " ++ " & ".intercalate (interfaces.map (·.text))

/-- The text of the fields of a type. -/
def fieldsText (fields : List Field) : String :=
  if fields.isEmpty then "\n" else " \x7b\n" ++ String.join (fields.map (fieldText server)) ++ "\x7d\n"

/-- The text of an object type or an interface. -/
def compositeText (keyword : Name) (t : TypeDefinition) (interfaces : List Name) (fields : List Field) : String :=
  "\n" ++ renderDescription t.description "" ++ keyword.text ++ " " ++ t.name.text ++ implementsText interfaces ++
    fieldsText server fields

variable {server}

theorem tail_implementsText (interfaces : List Name) :
    Tail (implementsText interfaces) (GraphQl.Sdl.implementsTokens interfaces) := by
  cases interfaces with
  | nil => exact .inl ⟨rfl, rfl⟩
  | cons n ns =>
    have hblank : Reads " " [] := Reads.marks " " rfl
    have hamp : Reads " & " [.punctuator '&'] := Reads.marks " & " rfl
    have hkeyword := (hblank.append_ends (Ends.name (word "implements"))).append_reads
      (delimits_of_head rfl (.inr rfl)) hblank
    have hsep : Delimits " & " := delimits_of_head rfl (.inr rfl)
    have hlist := Ends.intercalate (x := n) (l := ns) hsep hamp fun m _ => Ends.name m
    exact .inr ⟨(delimits_of_head rfl (.inr rfl)).append_string, hkeyword.append_ends hlist⟩

theorem reads_fieldsText {fields : List Field} (h : ∀ f ∈ fields, ∀ v ∈ f.arguments, server.Spells v) :
    Reads (fieldsText server fields)
      (GraphQl.Sdl.bracketed GraphQl.Sdl.Field.tokens '{' '}' (fields.map Field.definition)) ∧
      Delimits (fieldsText server fields) := by
  cases fields with
  | nil =>
    have hdelimits : Delimits "\n" := delimits_of_head rfl (.inr rfl)
    exact ⟨Reads.marks "\n" rfl, hdelimits⟩
  | cons f fields =>
    have hopen : Reads " \x7b\n" [.punctuator '{'] := Reads.marks " \x7b\n" rfl
    have hclose : Reads "\x7d\n" [.punctuator '}'] := Reads.marks "\x7d\n" rfl
    have htext := (hopen.append (Reads.join fun f hf => reads_fieldText (h f hf))).append hclose
    refine ⟨?_, (delimits_of_head rfl (.inr rfl)).append_string.append_string⟩
    simpa only [fieldsText, List.isEmpty_cons, Bool.false_eq_true, if_false, GraphQl.Sdl.bracketed, List.map_cons,
      List.flatMap_cons, List.flatMap_map, List.cons_append, List.nil_append, List.append_assoc] using htext

/-- An object type or an interface. -/
theorem reads_compositeText (keyword : Name) (t : TypeDefinition) (interfaces : List Name) {fields : List Field}
    (h : ∀ f ∈ fields, ∀ v ∈ f.arguments, server.Spells v) :
    Reads (compositeText server keyword t interfaces fields)
      (GraphQl.Sdl.descriptionTokens (descriptionOf "" t.description) ++ .name keyword :: .name t.name ::
        (GraphQl.Sdl.implementsTokens interfaces ++
          GraphQl.Sdl.bracketed GraphQl.Sdl.Field.tokens '{' '}' (fields.map Field.definition))) := by
  have hnewline : Reads "\n" [] := Reads.marks "\n" rfl
  have hblank : Reads " " [] := Reads.marks " " rfl
  obtain ⟨hfields, hdelimits⟩ := reads_fieldsText h
  have hkeyword := ((hnewline.append (reads_renderDescription blanks_none t.description)).append_ends
    (Ends.name keyword)).append_reads (delimits_of_head rfl (.inr rfl)) hblank
  have hname := (hkeyword.append_ends (Ends.name t.name)).tail (tail_implementsText interfaces)
  have htext := hname.append_reads hdelimits hfields
  simpa only [compositeText, List.append_nil, List.append_assoc, List.cons_append, List.nil_append] using htext

theorem mapM_namedType (names : List Name) : (names.map (namedRef s)).mapM namedType = .ok (names.map (·.text)) :=
  Result.mapM_map_eq_ok fun _ _ => rfl

theorem renderComposite_shallow (keyword : Name) (t : TypeDefinition) {interfaces : List Name} {fields : List Field}
    {ty : GraphQl.IntrospectionType} (hdescription : ty.description = t.description)
    (hinterfaces : ty.interfaces = some (interfaces.map (namedRef s)))
    (hfields : ty.fields = some (fields.map (introspectedField server s)))
    (h : ∀ f ∈ fields, ∀ r ∈ f.typeRefs, wrappers r ≤ ofTypeLevels) :
    renderComposite keyword.text t.name.text ty = .ok (compositeText server keyword t interfaces fields) := by
  have hnames := mapM_namedType s interfaces
  have hlist : (fields.map (introspectedField server s)).mapM renderField = .ok (fields.map (fieldText server)) :=
    Result.mapM_map_eq_ok fun f hf => renderField_shallow s (h f hf)
  rw [renderComposite, hinterfaces, hfields, hdescription]
  simp only [Option.getD_some, hnames, hlist]
  cases interfaces <;> cases fields <;> rfl

theorem shallow_of_renderComposite {keyword name text : String} {fields : List Field} {ty : GraphQl.IntrospectionType}
    (hfields : ty.fields = some (fields.map (introspectedField server s)))
    (h : renderComposite keyword name ty = .ok text) :
    ∀ f ∈ fields, ∀ r ∈ f.typeRefs, wrappers r ≤ ofTypeLevels := by
  intro f hf
  have hne : (fields.map (introspectedField server s)).isEmpty = false := by
    cases fields with
    | nil => cases hf
    | cons g fields => rfl
  rw [renderComposite, hfields] at h
  simp only [Option.getD_some, hne, Bool.false_eq_true, if_false] at h
  have hlist : ∃ texts, (fields.map (introspectedField server s)).mapM renderField = .ok texts := by
    split at h
    · simp only [Result.bind_eq_ok] at h
      obtain ⟨-, -, texts, htexts, -⟩ := h
      exact ⟨texts, htexts⟩
    · simp only [Result.bind_eq_ok] at h
      obtain ⟨-, -, -, -, texts, htexts, -⟩ := h
      exact ⟨texts, htexts⟩
  obtain ⟨text, htext⟩ := Result.exists_mapM_eq_ok.1 hlist _ (List.mem_map_of_mem hf)
  exact shallow_of_renderField s htext

/-- The types in a type. -/
def TypeBody.typeRefs : TypeBody → List TypeRef
  | .object _ fields => fields.flatMap Field.typeRefs
  | .interface _ fields => fields.flatMap Field.typeRefs
  | .input fields => fields.map (·.type)
  | _ => []

/-- The arguments and input fields in a type. -/
def TypeBody.inputs : TypeBody → List InputValue
  | .object _ fields => fields.flatMap (·.arguments)
  | .interface _ fields => fields.flatMap (·.arguments)
  | .input fields => fields
  | _ => []

/-- What every schema has: unions, enums and input objects are not empty, and a value of an enum is no other
literal. -/
def TypeBody.WellFormed : TypeBody → Prop
  | .union members => members ≠ []
  | .enum values => values ≠ [] ∧ ∀ v ∈ values, v.name ∉ GraphQl.Sdl.reserved
  | .input fields => fields ≠ []
  | _ => True

variable (server)

/-- The text of a type that is no predefined one. -/
def definitionText (t : TypeDefinition) : String :=
  match t.body with
  | .scalar => "\n" ++ renderDescription t.description "" ++ "scalar " ++ t.name.text ++ "\n"
  | .object interfaces fields => compositeText server (word "type") t interfaces fields
  | .interface interfaces fields => compositeText server (word "interface") t interfaces fields
  | .union members =>
    "\n" ++ renderDescription t.description "" ++ "union " ++ t.name.text ++ " = " ++
      " | ".intercalate (members.map (·.text)) ++ "\n"
  | .enum values =>
    "\n" ++ renderDescription t.description "" ++ "enum " ++ t.name.text ++ " \x7b\n" ++
      String.join (values.map fun v => renderEnumValue (introspectedValue v)) ++ "\x7d\n"
  | .input fields =>
    "\n" ++ renderDescription t.description "" ++ "input " ++ t.name.text ++ " \x7b\n" ++
      String.join (fields.map fun v => "  " ++ inputText server v ++ "\n") ++ "\x7d\n"

variable {server}

/-- A keyword and a name behind a description. -/
theorem ends_described (description : Option String) (keyword n : Name) :
    Ends ("\n" ++ renderDescription description "" ++ (keyword.text ++ " ") ++ n.text)
      (GraphQl.Sdl.descriptionTokens (descriptionOf "" description) ++ [.name keyword, .name n]) := by
  have hnewline : Reads "\n" [] := Reads.marks "\n" rfl
  have hblank : Reads " " [] := Reads.marks " " rfl
  have hkeyword := (Ends.name keyword).append_reads (delimits_of_head rfl (.inr rfl)) hblank
  have htext := ((hnewline.append (reads_renderDescription blanks_none description)).append hkeyword).append_ends
    (Ends.name n)
  simpa only [List.append_nil, List.append_assoc, List.cons_append, List.nil_append] using htext

/-- A list in braces behind such a head. -/
theorem reads_braced {α : Type} {head : String} {th : List Token} {text : α → String} {tok : α → List Token} {l : List α}
    (hhead : Ends head th) (hl : l ≠ []) (h : ∀ a ∈ l, Reads (text a) (tok a)) :
    Reads (head ++ " \x7b\n" ++ String.join (l.map text) ++ "\x7d\n")
      (th ++ GraphQl.Sdl.bracketed tok '{' '}' l) := by
  have hopen : Reads " \x7b\n" [.punctuator '{'] := Reads.marks " \x7b\n" rfl
  have hclose : Reads "\x7d\n" [.punctuator '}'] := Reads.marks "\x7d\n" rfl
  have htext := ((hhead.append_reads (delimits_of_head rfl (.inr rfl)) hopen).append (Reads.join h)).append hclose
  have hne : l.isEmpty = false := by
    rw [List.isEmpty_eq_false_iff]
    exact hl
  simpa only [GraphQl.Sdl.bracketed, hne, Bool.false_eq_true, if_false, List.append_assoc, List.cons_append,
    List.nil_append] using htext

theorem reads_definitionText {t : TypeDefinition} (hbody : t.body.WellFormed) (h : ∀ v ∈ t.body.inputs, server.Spells v) :
    Reads (definitionText server t) t.definition.tokens := by
  have hnewline : Reads "\n" [] := Reads.marks "\n" rfl
  obtain ⟨n, description, body⟩ := t
  cases body with
  | scalar =>
    have htext := (ends_described description (word "scalar") n).append_reads (delimits_of_head rfl (.inr rfl)) hnewline
    rw [List.append_nil] at htext
    exact htext
  | object interfaces fields =>
    have htext := reads_compositeText (word "type") ⟨n, description, .object interfaces fields⟩ interfaces
      fun f hf v hv => h v (List.mem_flatMap.2 ⟨f, hf, hv⟩)
    simpa only [definitionText, TypeDefinition.definition, TypeBody.definition, GraphQl.Sdl.Described.tokens,
      GraphQl.Sdl.Definition.tokens, List.flatMap_nil, List.append_nil] using htext
  | interface interfaces fields =>
    have htext := reads_compositeText (word "interface") ⟨n, description, .interface interfaces fields⟩ interfaces
      fun f hf v hv => h v (List.mem_flatMap.2 ⟨f, hf, hv⟩)
    simpa only [definitionText, TypeDefinition.definition, TypeBody.definition, GraphQl.Sdl.Described.tokens,
      GraphQl.Sdl.Definition.tokens, List.flatMap_nil, List.append_nil] using htext
  | union members =>
    cases members with
    | nil => exact absurd rfl hbody
    | cons m ms =>
      have hequals : Reads " = " [.punctuator '='] := Reads.marks " = " rfl
      have hbar : Reads " | " [.punctuator '|'] := Reads.marks " | " rfl
      have hsep : Delimits " | " := delimits_of_head rfl (.inr rfl)
      have hlist := Ends.intercalate (x := m) (l := ms) hsep hbar fun m _ => Ends.name m
      have hhead := (ends_described description (word "union") n).append_reads (delimits_of_head rfl (.inr rfl)) hequals
      have htext := (hhead.append_ends hlist).append_reads (delimits_of_head rfl (.inr rfl)) hnewline
      simp only [List.append_nil, List.append_assoc, List.cons_append, List.nil_append] at htext
      exact htext
  | enum values =>
    have htext := reads_braced (ends_described description (word "enum") n) hbody.1 fun v _ => reads_renderEnumValue v
    have htokens : GraphQl.Sdl.bracketed (fun v : EnumValue => v.definition.tokens) '{' '}' values =
        GraphQl.Sdl.bracketed GraphQl.Sdl.EnumValue.tokens '{' '}' (values.map EnumValue.definition) := by
      simp only [GraphQl.Sdl.bracketed, List.isEmpty_map, List.flatMap_map]
    rw [htokens, List.append_assoc] at htext
    exact htext
  | input fields =>
    have hblank : Reads "  " [] := Reads.marks "  " rfl
    have hitem : ∀ v ∈ fields, Reads ("  " ++ inputText server v ++ "\n") v.definition.tokens := by
      intro v hv
      have hv := (hblank.append_ends (ends_inputText (h v hv))).append_reads (delimits_of_head rfl (.inr rfl)) hnewline
      simpa only [List.append_nil, List.nil_append] using hv
    have htext := reads_braced (ends_described description (word "input") n) hbody hitem
    have htokens : GraphQl.Sdl.bracketed (fun v : InputValue => v.definition.tokens) '{' '}' fields =
        GraphQl.Sdl.bracketed GraphQl.Sdl.InputValue.tokens '{' '}' (fields.map InputValue.definition) := by
      simp only [GraphQl.Sdl.bracketed, List.isEmpty_map, List.flatMap_map]
    rw [htokens, List.append_assoc] at htext
    exact htext

theorem renderType_predefined {t : TypeDefinition} (h : t.predefined = true) :
    renderType (introspectedType server s t) = .ok "" := by
  rw [TypeDefinition.predefined, Bool.or_eq_true] at h
  rw [renderType, introspectedType]
  by_cases hmeta : isMeta t.name.text = true
  · simp only [hmeta, if_true]
  · have hscalar := h.resolve_left hmeta
    simp only [hmeta, Bool.false_eq_true, if_false]
    obtain ⟨n, description, body⟩ := t
    cases body with
    | scalar => exact if_pos (by simpa using hscalar)
    | object interfaces fields => cases hscalar
    | interface interfaces fields => cases hscalar
    | union members => cases hscalar
    | enum values => cases hscalar
    | input fields => cases hscalar

theorem renderType_own {t : TypeDefinition} (h : t.predefined = false) :
    renderType (introspectedType server s t) = renderNamed t.name.text (introspectedType server s t) := by
  rw [TypeDefinition.predefined, Bool.or_eq_false_iff] at h
  rw [renderType, introspectedType]
  simp only [h.1, Bool.false_eq_true, if_false]

/-- A type that is no predefined one is printed if no type in it is cut. -/
theorem renderType_shallow {t : TypeDefinition} (hown : t.predefined = false) (hbody : t.body.WellFormed)
    (h : ∀ r ∈ t.body.typeRefs, wrappers r ≤ ofTypeLevels) :
    renderType (introspectedType server s t) = .ok (definitionText server t) := by
  rw [renderType_own s hown]
  obtain ⟨n, description, body⟩ := t
  cases body with
  | scalar =>
    rw [TypeDefinition.predefined, Bool.or_eq_false_iff] at hown
    exact if_neg (by simpa using hown.2)
  | object interfaces fields =>
    have hfields : ∀ f ∈ fields, ∀ r ∈ f.typeRefs, wrappers r ≤ ofTypeLevels :=
      fun f hf r hr => h r (List.mem_flatMap.2 ⟨f, hf, hr⟩)
    have hunfold : renderNamed n.text (introspectedType server s ⟨n, description, .object interfaces fields⟩) =
        renderComposite (word "type").text n.text
          (introspectedType server s ⟨n, description, .object interfaces fields⟩) := rfl
    have htext : definitionText server ⟨n, description, .object interfaces fields⟩ =
        compositeText server (word "type") ⟨n, description, .object interfaces fields⟩ interfaces fields := rfl
    rw [hunfold, htext]
    exact renderComposite_shallow s (word "type") ⟨n, description, .object interfaces fields⟩ rfl rfl rfl hfields
  | interface interfaces fields =>
    have hfields : ∀ f ∈ fields, ∀ r ∈ f.typeRefs, wrappers r ≤ ofTypeLevels :=
      fun f hf r hr => h r (List.mem_flatMap.2 ⟨f, hf, hr⟩)
    have hunfold : renderNamed n.text (introspectedType server s ⟨n, description, .interface interfaces fields⟩) =
        renderComposite (word "interface").text n.text
          (introspectedType server s ⟨n, description, .interface interfaces fields⟩) := rfl
    have htext : definitionText server ⟨n, description, .interface interfaces fields⟩ =
        compositeText server (word "interface") ⟨n, description, .interface interfaces fields⟩ interfaces fields := rfl
    rw [hunfold, htext]
    exact renderComposite_shallow s (word "interface") ⟨n, description, .interface interfaces fields⟩ rfl rfl rfl hfields
  | union members =>
    cases members with
    | nil => exact absurd rfl hbody
    | cons m ms =>
      have hnames := mapM_namedType s (m :: ms)
      have hunfold : renderNamed n.text (introspectedType server s ⟨n, description, .union (m :: ms)⟩) =
          ((m :: ms).map (namedRef s)).mapM namedType >>= fun names =>
            pure ("\n" ++ renderDescription description "" ++ "union " ++ n.text ++ " = " ++ " | ".intercalate names ++
              "\n") := rfl
      rw [hunfold, hnames]
      rfl
  | enum values =>
    have hunfold : renderNamed n.text (introspectedType server s ⟨n, description, .enum values⟩) =
        .ok ("\n" ++ renderDescription description "" ++ "enum " ++ n.text ++ " \x7b\n" ++
          String.join ((values.map introspectedValue).map renderEnumValue) ++ "\x7d\n") := rfl
    rw [hunfold, List.map_map]
    rfl
  | input fields =>
    have hlist : (fields.map (introspectedInput server s)).mapM renderInputValue = .ok (fields.map (inputText server)) :=
      Result.mapM_map_eq_ok fun v hv => renderInputValue_shallow s (h v.type (List.mem_map_of_mem hv))
    have hunfold : renderNamed n.text (introspectedType server s ⟨n, description, .input fields⟩) =
        (fields.map (introspectedInput server s)).mapM renderInputValue >>= fun texts =>
          pure ("\n" ++ renderDescription description "" ++ "input " ++ n.text ++ " \x7b\n" ++
            String.join (texts.map fun f => "  " ++ f ++ "\n") ++ "\x7d\n") := rfl
    rw [hunfold, hlist, Result.ok_bind, List.map_map]
    rfl

/-- In a type that is printed no type was cut. -/
theorem shallow_of_renderType {t : TypeDefinition} {text : String} (hown : t.predefined = false)
    (h : renderType (introspectedType server s t) = .ok text) : ∀ r ∈ t.body.typeRefs, wrappers r ≤ ofTypeLevels := by
  rw [renderType_own s hown] at h
  obtain ⟨n, description, body⟩ := t
  intro r hr
  cases body with
  | scalar => cases hr
  | object interfaces fields =>
    obtain ⟨f, hf, hr⟩ := List.mem_flatMap.1 hr
    exact shallow_of_renderComposite s rfl h f hf r hr
  | interface interfaces fields =>
    obtain ⟨f, hf, hr⟩ := List.mem_flatMap.1 hr
    exact shallow_of_renderComposite s rfl h f hf r hr
  | union members => cases hr
  | enum values => cases hr
  | input fields =>
    obtain ⟨v, hv, rfl⟩ := List.mem_map.1 hr
    have hunfold : renderNamed n.text (introspectedType server s ⟨n, description, .input fields⟩) =
        (fields.map (introspectedInput server s)).mapM renderInputValue >>= fun texts =>
          pure ("\n" ++ renderDescription description "" ++ "input " ++ n.text ++ " \x7b\n" ++
            String.join (texts.map fun f => "  " ++ f ++ "\n") ++ "\x7d\n") := rfl
    rw [hunfold, Result.bind_eq_ok] at h
    obtain ⟨texts, htexts, -⟩ := h
    obtain ⟨text, htext⟩ := Result.exists_mapM_eq_ok.1 ⟨texts, htexts⟩ _ (List.mem_map_of_mem hv)
    exact shallow_of_renderInputValue s htext

/-! ### Directives -/

variable (server)

/-- The text of a directive that is no predefined one. -/
def directiveText (d : DirectiveDefinition) : String :=
  "\n" ++ renderDescription d.description "" ++ "directive @" ++ d.name.text ++ argsText server d.arguments ++ " on " ++
    " | ".intercalate (d.locations.map (·.word.text)) ++ "\n"

variable {server}

theorem reads_directiveText {d : DirectiveDefinition} (hlocations : d.locations ≠ [])
    (h : ∀ v ∈ d.arguments, server.Spells v) : Reads (directiveText server d) d.definition.tokens := by
  have hnewline : Reads "\n" [] := Reads.marks "\n" rfl
  have hat : Reads " @" [.punctuator '@'] := Reads.marks " @" rfl
  have hblank : Reads " " [] := Reads.marks " " rfl
  have hbar : Reads " | " [.punctuator '|'] := Reads.marks " | " rfl
  have hsep : Delimits " | " := delimits_of_head rfl (.inr rfl)
  have hdirective : Reads "directive @" [.name (word "directive"), .punctuator '@'] := by
    rw [show "directive @" = (word "directive").text ++ " @" by decide +kernel]
    exact (Ends.name (word "directive")).append_reads (delimits_of_head rfl (.inr rfl)) hat
  have hon : Reads " on " [.name (word "on")] := by
    rw [show " on " = " " ++ (word "on").text ++ " " by decide +kernel]
    exact (hblank.append_ends (Ends.name (word "on"))).append_reads (delimits_of_head rfl (.inr rfl)) hblank
  obtain ⟨n, description, locations, arguments⟩ := d
  cases locations with
  | nil => exact absurd rfl hlocations
  | cons l ls =>
    have hlist := Ends.intercalate (x := l) (l := ls) hsep hbar fun l _ => Ends.name l.word
    have hname := ((hnewline.append (reads_renderDescription blanks_none description)).append hdirective).append_ends
      (Ends.name n)
    have hargs := (hname.tail (tail_argsText h)).append_reads (delimits_of_head rfl (.inr rfl)) hon
    have htext := (hargs.append_ends hlist).append_reads (delimits_of_head rfl (.inr rfl)) hnewline
    simp only [List.append_nil, List.append_assoc, List.cons_append, List.nil_append] at htext
    exact htext

theorem renderDirective_predefined {d : DirectiveDefinition} (h : d.predefined = true) :
    renderDirective (introspectedDirective server s d) = .ok "" := by
  rw [DirectiveDefinition.predefined, decide_eq_true_eq] at h
  rw [renderDirective, introspectedDirective]
  exact if_pos h

/-- A directive that is no predefined one is printed if no type in it is cut. -/
theorem renderDirective_shallow {d : DirectiveDefinition} (hown : d.predefined = false) (hlocations : d.locations ≠ [])
    (h : ∀ v ∈ d.arguments, wrappers v.type ≤ ofTypeLevels) :
    renderDirective (introspectedDirective server s d) = .ok (directiveText server d) := by
  rw [DirectiveDefinition.predefined, decide_eq_false_iff_not] at hown
  have hne : (d.locations.map fun l => l.word.text).isEmpty = false := by
    rw [List.isEmpty_map, List.isEmpty_eq_false_iff]
    exact hlocations
  rw [renderDirective, introspectedDirective, if_neg hown]
  simp only [hne, Bool.not_false, renderArgs_shallow s h]
  rfl

theorem shallow_of_renderDirective {d : DirectiveDefinition} {text : String} (hown : d.predefined = false)
    (h : renderDirective (introspectedDirective server s d) = .ok text) :
    ∀ v ∈ d.arguments, wrappers v.type ≤ ofTypeLevels := by
  rw [DirectiveDefinition.predefined, decide_eq_false_iff_not] at hown
  rw [renderDirective, introspectedDirective, if_neg hown] at h
  simp only [Result.bind_eq_ok] at h
  obtain ⟨-, -, args, hargs, -⟩ := h
  exact shallow_of_renderArgs s hargs

/-! ### Schemas -/

/-- A root operation is printed on a line of its own. -/
theorem reads_root (o : GraphQl.Sdl.Operation) (n : Name) :
    Reads (renderRoot o.word.text (some n.text)) [.name o.word, .punctuator ':', .name n] := by
  have hblank : Reads "  " [] := Reads.marks "  " rfl
  have hcolon : Reads ": " [.punctuator ':'] := Reads.marks ": " rfl
  have hnewline : Reads "\n" [] := Reads.marks "\n" rfl
  have hword := (hblank.append_ends (Ends.name o.word)).append_reads (delimits_of_head rfl (.inl rfl)) hcolon
  exact (hword.append_ends (Ends.name n)).append_reads (delimits_of_head rfl (.inr rfl)) hnewline

theorem reads_optional_root (o : GraphQl.Sdl.Operation) (n : Option Name) :
    Reads (renderRoot o.word.text (n.map (·.text)))
      ((n.map (o, ·)).toList.flatMap fun r => [.name r.1.word, .punctuator ':', .name r.2]) := by
  cases n with
  | none => exact Reads.empty
  | some n => exact reads_root o n

/-- The text of the `schema` block. -/
def rootsText : String :=
  "schema \x7b\n" ++ renderRoot "query" (some s.query.text) ++ renderRoot "mutation" (s.mutation.map (·.text)) ++
    renderRoot "subscription" (s.subscription.map (·.text)) ++ "\x7d\n"

theorem reads_rootsText : Reads (rootsText s) (GraphQl.Sdl.Described.tokens ⟨none, .schema s.roots, []⟩) := by
  have hbrace : Reads " \x7b\n" [.punctuator '{'] := Reads.marks " \x7b\n" rfl
  have hclose : Reads "\x7d\n" [.punctuator '}'] := Reads.marks "\x7d\n" rfl
  have hopen : Reads "schema \x7b\n" [.name (word "schema"), .punctuator '{'] := by
    rw [show "schema \x7b\n" = (word "schema").text ++ " \x7b\n" by decide +kernel]
    exact (Ends.name (word "schema")).append_reads (delimits_of_head rfl (.inr rfl)) hbrace
  have hquery : Reads (renderRoot "query" (some s.query.text)) _ := reads_root .query s.query
  have hmutation : Reads (renderRoot "mutation" (s.mutation.map (·.text))) _ := reads_optional_root .mutation s.mutation
  have hsubscription : Reads (renderRoot "subscription" (s.subscription.map (·.text))) _ :=
    reads_optional_root .subscription s.subscription
  have htext := (((hopen.append hquery).append hmutation).append hsubscription).append hclose
  simpa only [rootsText, GraphQl.Sdl.Described.tokens, GraphQl.Sdl.descriptionTokens, GraphQl.Sdl.Definition.tokens,
    Schema.roots, GraphQl.Sdl.bracketed, Option.map_none, Option.toList_none, List.flatMap_nil, List.nil_append,
    List.isEmpty_cons, Bool.false_eq_true, if_false, List.flatMap_cons, List.flatMap_append, List.append_assoc,
    List.cons_append] using htext

/-- The types in a schema, but for the predefined. -/
def Schema.typeRefs : List TypeRef :=
  s.ownDirectives.flatMap (fun d => d.arguments.map (·.type)) ++ s.ownTypes.flatMap (·.body.typeRefs)

/-- The arguments and input fields in a schema, but for the predefined. -/
def Schema.inputs : List InputValue :=
  s.ownDirectives.flatMap (·.arguments) ++ s.ownTypes.flatMap (·.body.inputs)

/-- What every schema has. -/
structure Schema.WellFormed : Prop where
  types : ∀ t ∈ s.ownTypes, t.body.WellFormed
  directives : ∀ d ∈ s.ownDirectives, d.locations ≠ []

/-- No type is nested deeper than the query fetches. -/
def Schema.Shallow : Prop := ∀ t ∈ s.typeRefs, wrappers t ≤ ofTypeLevels

/-- A loop over what is skipped and what is printed. -/
theorem reads_own {α : Type} {l : List α} {skipped : α → Bool} {text : α → String} {described : α → GraphQl.Sdl.Described}
    (h : ∀ a ∈ l.filter (!skipped ·), Reads (text a) (described a).tokens) :
    Reads (String.join (l.map fun a => if skipped a then "" else text a))
      (((l.filter (!skipped ·)).map described).flatMap GraphQl.Sdl.Described.tokens) := by
  induction l with
  | nil => exact Reads.empty
  | cons a l ih =>
    rw [List.map_cons, String.join_cons]
    cases ha : skipped a with
    | true =>
      rw [List.filter_cons_of_neg (by simp [ha])] at h ⊢
      rw [if_pos rfl, String.empty_append]
      exact ih h
    | false =>
      rw [List.filter_cons_of_pos (by simp [ha])] at h ⊢
      rw [if_neg Bool.false_ne_true, List.map_cons, List.flatMap_cons]
      exact (h a (List.mem_cons_self ..)).append (ih fun b hb => h b (List.mem_cons_of_mem _ hb))

variable (server)

/-- The text of a schema. -/
def schemaText : String :=
  rootsText s ++ String.join (s.directives.map fun d => if d.predefined then "" else directiveText server d) ++
    String.join (s.types.map fun t => if t.predefined then "" else definitionText server t)

variable {server s}

theorem mem_ownDirectives {d : DirectiveDefinition} (hd : d ∈ s.directives) (hown : d.predefined = false) :
    d ∈ s.ownDirectives := List.mem_filter.2 ⟨hd, by simp [hown]⟩

theorem mem_ownTypes {t : TypeDefinition} (ht : t ∈ s.types) (hown : t.predefined = false) : t ∈ s.ownTypes :=
  List.mem_filter.2 ⟨ht, by simp [hown]⟩

theorem renderSchema_shallow (hs : s.WellFormed) (h : s.Shallow) :
    renderSchema (introspected server s) = .ok (schemaText server s) := by
  have hdirectives : (s.directives.map (introspectedDirective server s)).mapM renderDirective =
      .ok (s.directives.map fun d => if d.predefined then "" else directiveText server d) := by
    refine Result.mapM_map_eq_ok fun d hd => ?_
    cases hown : d.predefined with
    | true => exact renderDirective_predefined s hown
    | false =>
      have hmem := mem_ownDirectives hd hown
      refine renderDirective_shallow s hown (hs.directives d hmem) fun v hv => h v.type ?_
      exact List.mem_append_left _ (List.mem_flatMap.2 ⟨d, hmem, List.mem_map_of_mem hv⟩)
  have htypes : (s.types.map (introspectedType server s)).mapM renderType =
      .ok (s.types.map fun t => if t.predefined then "" else definitionText server t) := by
    refine Result.mapM_map_eq_ok fun t ht => ?_
    cases hown : t.predefined with
    | true => exact renderType_predefined s hown
    | false =>
      have hmem := mem_ownTypes ht hown
      refine renderType_shallow s hown (hs.types t hmem) fun r hr => h r ?_
      exact List.mem_append_right _ (List.mem_flatMap.2 ⟨t, hmem, hr⟩)
  rw [renderSchema, introspected]
  simp only [hdirectives, htypes]
  rfl

/-- If a schema is printed, no type in it was cut. -/
theorem shallow_of_renderSchema {text : String} (h : renderSchema (introspected server s) = .ok text) : s.Shallow := by
  rw [renderSchema, introspected] at h
  simp only [Result.bind_eq_ok] at h
  obtain ⟨-, -, directives, hdirectives, types, htypes, -⟩ := h
  intro r hr
  rcases List.mem_append.1 hr with hr | hr
  · obtain ⟨d, hd, hr⟩ := List.mem_flatMap.1 hr
    obtain ⟨v, hv, rfl⟩ := List.mem_map.1 hr
    obtain ⟨hd, hown⟩ := List.mem_filter.1 hd
    obtain ⟨text, htext⟩ := Result.exists_mapM_eq_ok.1 ⟨directives, hdirectives⟩ _ (List.mem_map_of_mem hd)
    exact shallow_of_renderDirective s (by simpa using hown) htext v hv
  · obtain ⟨t, ht, hr⟩ := List.mem_flatMap.1 hr
    obtain ⟨ht, hown⟩ := List.mem_filter.1 ht
    obtain ⟨text, htext⟩ := Result.exists_mapM_eq_ok.1 ⟨types, htypes⟩ _ (List.mem_map_of_mem ht)
    exact shallow_of_renderType s (by simpa using hown) htext r hr

/-- The text of a schema is read as its document. -/
theorem parse_schemaText (hs : s.WellFormed) (hspells : ∀ v ∈ s.inputs, server.Spells v) :
    GraphQl.Sdl.parse (schemaText server s) = some s.document := by
  have hdirectives : ∀ d ∈ s.ownDirectives, Reads (directiveText server d) d.definition.tokens :=
    fun d hd => reads_directiveText (hs.directives d hd) fun v hv =>
      hspells v (List.mem_append_left _ (List.mem_flatMap.2 ⟨d, hd, hv⟩))
  have htypes : ∀ t ∈ s.ownTypes, Reads (definitionText server t) t.definition.tokens :=
    fun t ht => reads_definitionText (hs.types t ht) fun v hv =>
      hspells v (List.mem_append_right _ (List.mem_flatMap.2 ⟨t, ht, hv⟩))
  have htext : Reads (schemaText server s) (s.document.flatMap GraphQl.Sdl.Described.tokens) := by
    have hall := ((reads_rootsText s).append (reads_own hdirectives)).append (reads_own htypes)
    rw [Schema.document, List.flatMap_cons, List.flatMap_append, ← List.append_assoc]
    exact hall
  have hwellFormed : ∀ d ∈ s.document, d.WellFormed := by
    intro d hd
    rcases List.mem_cons.1 hd with rfl | hd
    · exact List.cons_ne_nil _ _
    · rcases List.mem_append.1 hd with hd | hd
      · obtain ⟨own, hown, rfl⟩ := List.mem_map.1 hd
        exact ⟨hs.directives own hown, rfl⟩
      · obtain ⟨t, ht, rfl⟩ := List.mem_map.1 hd
        have hbody := hs.types t ht
        obtain ⟨n, description, body⟩ := t
        cases body with
        | enum values =>
          intro v hv
          obtain ⟨w, hw, rfl⟩ := List.mem_map.1 hv
          exact hbody.2 w hw
        | scalar => trivial
        | object interfaces fields => trivial
        | interface interfaces fields => trivial
        | union members => trivial
        | input fields => trivial
  rw [GraphQl.Sdl.parse, htext.ends.tokenize]
  exact GraphQl.Sdl.document_tokens (List.cons_ne_nil _ _) hwellFormed

end Text

/-! ### What is listed -/

section Listed

variable {s : Schema} {hides : Bool}

theorem listedInputs_eq {inputs : List InputValue} (h : hides = false ∨ ∀ v ∈ inputs, v.deprecation = none) :
    listedInputs hides inputs = inputs := by
  rcases h with rfl | h
  · rfl
  · cases hides with
    | false => rfl
    | true =>
      refine List.filter_eq_self.2 fun v hv => ?_
      rw [h v hv]
      rfl

theorem map_listed_eq {fields : List Field}
    (h : hides = false ∨ ∀ f ∈ fields, ∀ v ∈ f.arguments, v.deprecation = none) :
    fields.map (Field.listed hides) = fields := by
  refine (List.map_congr_left fun f hf => ?_).trans (List.map_id fields)
  rw [Field.listed, listedInputs_eq (h.imp id fun hall => hall f hf)]
  rfl

theorem TypeBody.listed_eq {body : TypeBody} (h : hides = false ∨ ∀ v ∈ body.inputs, v.deprecation = none) :
    body.listed hides = body := by
  cases body with
  | object interfaces fields =>
    rw [listed, map_listed_eq (h.imp id fun hall f hf v hv => hall v (List.mem_flatMap.2 ⟨f, hf, hv⟩))]
  | interface interfaces fields =>
    rw [listed, map_listed_eq (h.imp id fun hall f hf v hv => hall v (List.mem_flatMap.2 ⟨f, hf, hv⟩))]
  | input fields =>
    have hfields : listedInputs hides fields = fields := listedInputs_eq h
    rw [listed, hfields]
  | scalar => rfl
  | union members => rfl
  | enum values => rfl

/-- What is predefined stays so. -/
theorem predefined_listed (t : TypeDefinition) : (t.listed hides).predefined = t.predefined := by
  obtain ⟨n, description, body⟩ := t
  cases body <;> rfl

theorem ownTypes_listed : (s.listed hides).ownTypes = s.ownTypes.map (TypeDefinition.listed hides) := by
  have hpredefined : (fun t : TypeDefinition => !t.predefined) ∘ TypeDefinition.listed hides =
      fun t => !t.predefined := by
    funext t
    rw [Function.comp_apply, predefined_listed]
  rw [Schema.ownTypes, Schema.listed, List.filter_map, hpredefined, ← Schema.ownTypes]

theorem ownDirectives_listed :
    (s.listed hides).ownDirectives = s.ownDirectives.map (DirectiveDefinition.listed hides) := by
  rw [Schema.ownDirectives, Schema.listed, List.filter_map]
  rfl

/-- A schema without deprecated arguments and input fields is listed whole. -/
theorem document_listed (h : hides = false ∨ ∀ v ∈ s.inputs, v.deprecation = none) :
    (s.listed hides).document = s.document := by
  have hdirectives : (s.listed hides).ownDirectives = s.ownDirectives := by
    rw [ownDirectives_listed]
    refine (List.map_congr_left fun d hd => ?_).trans (List.map_id _)
    rw [DirectiveDefinition.listed, listedInputs_eq (h.imp id fun hall v hv =>
      hall v (List.mem_append_left _ (List.mem_flatMap.2 ⟨d, hd, hv⟩)))]
    rfl
  have htypes : (s.listed hides).ownTypes = s.ownTypes := by
    rw [ownTypes_listed]
    refine (List.map_congr_left fun t ht => ?_).trans (List.map_id _)
    rw [TypeDefinition.listed, TypeBody.listed_eq (h.imp id fun hall v hv =>
      hall v (List.mem_append_right _ (List.mem_flatMap.2 ⟨t, ht, hv⟩)))]
    rfl
  rw [Schema.document, Schema.document, hdirectives, htypes]
  rfl

end Listed

/-! ### The round trip -/

section RoundTrip

variable {Num : Type} (describe : Json Num → String) (server : Server) (s : Schema)

theorem introspectionToSdl_response :
    introspectionToSdl describe (response server s) = renderSchema (introspected server (s.listed server.hides)) := by
  have hunfold : ∀ value : Json Num,
      introspectionToSdl describe (.object [("data", .object [("__schema", value)])]) =
        Result.okOr (GraphQl.readSchema value) ("response does not match the introspection shape: " ++ describe value) >>=
          renderSchema := fun _ => rfl
  rw [response, hunfold, readSchema_schemaJson]
  rfl

/-- Introspection and back: the text is the document of the schema as it is listed, or there is none since a type was
cut; `parse` stands for the compiler's parser. -/
theorem introspection_round_trips (parse : String → Option GraphQl.Sdl.Document)
    (hparse : ∀ text document, GraphQl.Sdl.parse text = some document → parse text = some document)
    (hs : (s.listed server.hides).WellFormed) (hspells : ∀ v ∈ (s.listed server.hides).inputs, server.Spells v) :
    ((s.listed server.hides).Shallow → ∃ text, introspectionToSdl describe (response server s) = .ok text ∧
      parse text = some (s.listed server.hides).document) ∧
    (¬ (s.listed server.hides).Shallow → ∃ e, introspectionToSdl describe (response server s) = .error e) ∧
    ((server.hides = false ∨ ∀ v ∈ s.inputs, v.deprecation = none) →
      (s.listed server.hides).document = s.document) ∧
    (∀ text, text ≠ "" → Reads (renderDescription (some text) "") [.block (blockText "" text)] ∧
      Reads (renderDescription (some text) "  ") [.block (blockText "  " text)]) ∧
    ∀ reason, Ends (quoteString reason) [.string reason] := by
  refine ⟨fun h => ?_, fun h => ?_, document_listed,
    fun text htext => ⟨reads_description blanks_none htext, reads_description blanks_two htext⟩, ends_reason⟩
  · refine ⟨schemaText server (s.listed server.hides), ?_, hparse _ _ (parse_schemaText hs hspells)⟩
    rw [introspectionToSdl_response, renderSchema_shallow hs h]
  · rw [introspectionToSdl_response]
    cases hresult : renderSchema (introspected server (s.listed server.hides)) with
    | error e => exact ⟨e, rfl⟩
    | ok text => exact absurd (shallow_of_renderSchema hresult) h

/-! ### A deprecated argument -/

/-- A server that prints a name as itself, and hides deprecated arguments. -/
def hidingServer : Server where
  literal
    | .word n => n.text
    | _ => ""
  hides := true

/-- `user(id: ID = null @deprecated, name: String = null): [User!]!`. -/
def userField : Field where
  name := word "user"
  description := none
  arguments :=
    [⟨word "id", none, .named (word "ID") false, some (.word (word "null")), some (some "use `name`")⟩,
      ⟨word "name", none, .named (word "String") false, some (.word (word "null")), none⟩]
  type := .list (.named (word "User") true) true
  deprecation := none

/-- A schema of that field. -/
def userSchema : Schema where
  query := word "Query"
  mutation := none
  subscription := none
  types :=
    [⟨word "Query", some "The \"\"\"root\"\"\"\nof it", .object [] [userField]⟩,
      ⟨word "User", none, .object [] [⟨word "name", none, [], .named (word "String") false, none⟩]⟩,
      ⟨word "String", none, .scalar⟩]
  directives := []

/-- The types of the schema that are its own, as they are listed. -/
theorem ownTypes_userSchema : (userSchema.listed hidingServer.hides).ownTypes =
    [⟨word "Query", some "The \"\"\"root\"\"\"\nof it", .object [] [userField.listed true]⟩,
      ⟨word "User", none, .object [] [⟨word "name", none, [], .named (word "String") false, none⟩]⟩] := rfl

theorem wellFormed_userSchema : (userSchema.listed hidingServer.hides).WellFormed where
  types t ht := by
    rw [ownTypes_userSchema] at ht
    rcases List.mem_cons.1 ht with rfl | ht
    · trivial
    · rcases List.mem_cons.1 ht with rfl | ht
      · trivial
      · cases ht
  directives d hd := by cases hd

theorem shallow_userSchema : (userSchema.listed hidingServer.hides).Shallow := by
  have htypes : (userSchema.listed hidingServer.hides).typeRefs =
      [.list (.named (word "User") true) true, .named (word "String") false, .named (word "String") false] := rfl
  rw [Schema.Shallow, htypes]
  decide

theorem spells_userSchema : ∀ v ∈ (userSchema.listed hidingServer.hides).inputs, hidingServer.Spells v := by
  have hinputs : (userSchema.listed hidingServer.hides).inputs =
      [⟨word "name", none, .named (word "String") false, some (.word (word "null")), none⟩] := rfl
  rw [hinputs]
  intro v hv d hd
  rw [List.mem_singleton.1 hv] at hd
  cases hd
  exact Ends.name (word "null")

/-- The round trip of a schema, as far as its server lists it. -/
theorem introspection_round_trips_user : ∃ text,
    introspectionToSdl (fun _ : Json Unit => "") (response hidingServer userSchema) = .ok text ∧
      GraphQl.Sdl.parse text = some (userSchema.listed true).document :=
  (introspection_round_trips _ hidingServer userSchema GraphQl.Sdl.parse (fun _ _ h => h) wellFormed_userSchema
    spells_userSchema).1 shallow_userSchema

/-- The argument that is deprecated is lost. -/
theorem deprecated_argument_lost : ∃ text,
    introspectionToSdl (fun _ : Json Unit => "") (response hidingServer userSchema) = .ok text ∧
      GraphQl.Sdl.parse text ≠ some userSchema.document := by
  refine ⟨schemaText hidingServer (userSchema.listed hidingServer.hides), ?_, ?_⟩
  · rw [introspectionToSdl_response, renderSchema_shallow wellFormed_userSchema shallow_userSchema]
  · rw [parse_schemaText wellFormed_userSchema spells_userSchema]
    intro heq
    have hfields : [userField.listed true].map Field.definition = [userField].map Field.definition := by
      have hquery := congrArg (fun doc => doc[1]?.map (·.definition)) (Option.some.inj heq)
      injection hquery with hquery
      injection hquery with _ hbody
      injection hbody
    have hlength := congrArg (fun fields => fields.map (·.arguments.length)) hfields
    exact absurd hlength (by decide)

end RoundTrip

end G2way.Upstream
