import CedarSchema.Proofs.Grammar.Acceptance
import CedarSchema.Proofs.Parse.Comments

/-
  The printer keeps to the grammar. Comments, blanks and line ends apart, the layout of each part of
  a writable schema is spelled by the rule for that part, and spells the part itself. So the
  canonical text is read, however long it is, and the tree that is read differs from the schema at
  most in where its comments stand (`Schema.Writable.exists_parse_format`).
-/

namespace CedarSchema

open Piece

/-! ## The words of a layout -/

namespace Piece

/-- The lexeme that a piece is, comments left out. -/
def word? : Piece → Option Lexeme
  | lexeme (.comment _) => none
  | lexeme l => some l
  | _ => none

/-- The lexemes of a layout that are no comments. -/
def wordsIn (ps : List Piece) : List Lexeme := ps.filterMap word?

variable {ps qs : List Piece} {depth : Nat} {text : String}

@[simp] theorem wordsIn_nil : wordsIn [] = [] := rfl

@[simp] theorem wordsIn_append : wordsIn (ps ++ qs) = wordsIn ps ++ wordsIn qs :=
  List.filterMap_append

@[simp] theorem wordsIn_space : wordsIn (space :: ps) = wordsIn ps := rfl
@[simp] theorem wordsIn_newline : wordsIn (newline :: ps) = wordsIn ps := rfl
@[simp] theorem wordsIn_indent : wordsIn (indent depth :: ps) = wordsIn ps := rfl
@[simp] theorem wordsIn_comment : wordsIn (comment text :: ps) = wordsIn ps := rfl

@[simp] theorem wordsIn_ident : wordsIn (ident text :: ps) = .ident text :: wordsIn ps := rfl
@[simp] theorem wordsIn_str : wordsIn (str text :: ps) = .str text :: wordsIn ps := rfl

@[simp] theorem wordsIn_punct {p : Punct} : wordsIn (punct p :: ps) = .punct p :: wordsIn ps := rfl

/-- The lexeme that a name is printed as. -/
def nameWord (s : String) : Lexeme := if Text.isIdent s then .ident s else .str s

@[simp] theorem wordsIn_name : wordsIn (Piece.name text :: ps) = nameWord text :: wordsIn ps := by
  rw [Piece.name, nameWord]
  split <;> rfl

@[simp] theorem wordsIn_commentLines {comments : List String} :
    wordsIn (commentLines depth comments) = [] := by
  induction comments with
  | nil => rfl
  | cons c cs ih => exact ih

@[simp] theorem wordsIn_lineEnd {c : Comments} : wordsIn (lineEnd c) = [] := by
  rw [lineEnd]
  cases c.inline <;> rfl

@[simp] theorem wordsIn_braced : wordsIn (braced depth ps) =
    .punct .leftBrace :: (wordsIn ps ++ [.punct .rightBrace]) := by
  rw [braced]
  split
  · rename_i h
    rw [List.isEmpty_iff.1 h]
    rfl
  · simp

/-- The words of the tokens that a layout is read as. -/
theorem words_tokens (ps : List Piece) (pos : Position) : (tokens pos ps).words = wordsIn ps := by
  induction ps generalizing pos with
  | nil => rfl
  | cons p ps ih =>
    cases p with
    | lexeme l =>
      cases l with
      | comment text => exact ih _
      | _ => exact congrArg _ (ih _)
    | _ => exact ih _

end Piece

namespace Grammar

/-! ## Lists -/

section

variable {α β : Type} {rule : List Lexeme → β → Prop} {f : α → List Piece} {g : α → β}
  {xs : List α} {depth : Nat}

theorem commas_layout (h : ∀ x ∈ xs, rule (wordsIn (f x)) (g x)) (hxs : xs ≠ []) :
    Commas rule (wordsIn (commas (xs.map f))) (xs.map g) := by
  induction xs with
  | nil => exact absurd rfl hxs
  | cons x xs ih =>
    obtain ⟨hx, hrest⟩ := List.forall_mem_cons.1 h
    cases xs with
    | nil => exact .one hx
    | cons y ys =>
      have hys := ih hrest (List.cons_ne_nil y ys)
      simpa [commas, separated] using Commas.more hx hys

theorem items_layout (h : ∀ x ∈ xs, rule (wordsIn (f x)) (g x)) :
    Items rule (wordsIn (commas (xs.map f))) (xs.map g) := by
  induction xs with
  | nil => exact .none
  | cons x xs ih =>
    obtain ⟨hx, hrest⟩ := List.forall_mem_cons.1 h
    cases xs with
    | nil => exact .one hx
    | cons y ys => simpa [commas, separated] using Items.more hx (ih hrest)

theorem bracketed_layout (h : ∀ x ∈ xs, rule (wordsIn (f x)) (g x)) :
    OneOrBracketed rule (wordsIn (bracketed (xs.map f))) (xs.map g) := by
  simpa [bracketed] using OneOrBracketed.bracketed (items_layout h)

/-- A part that may be absent, and is then spelled by nothing. -/
theorem optional_layout {o : Option α} {words : α → List Lexeme}
    (h : ∀ x ∈ o, rule (words x) (g x)) : Optional rule (o.elim [] words) (o.map g) := by
  cases o with
  | none => exact .none
  | some x => exact .some (h x rfl)

/-- A list behind a word, which is printed if there is something on it. -/
theorem listClause_layout (word : String) {rule : List Lexeme → List α → Prop} {ps : List Piece}
    (h : rule (wordsIn ps) xs) :
    ∃ o, Optional (AfterWord word rule) (wordsIn (if xs.isEmpty then []
      else [space, ident word, space] ++ ps)) o ∧ o.getD [] = xs := by
  cases xs with
  | nil => exact ⟨none, .none, rfl⟩
  | cons x xs => exact ⟨some (x :: xs), .some (.mk h), rfl⟩

end

/-! ## Names and references -/

theorem spells_name (s : String) : SpellsName [nameWord s] s := by
  rw [nameWord]
  split
  · exact .ident s
  · exact .str s

theorem spells_segments (segments : List String) :
    SpellsSegments (segments.flatMap fun s => [.punct .doubleColon, .ident s]) segments := by
  induction segments with
  | nil => exact .none
  | cons s segments ih => exact .more s ih

theorem spells_path {p : Path} (h : p.segments ≠ []) : SpellsPath (wordsIn p.layout) p := by
  obtain ⟨segments⟩ := p
  cases segments with
  | nil => exact absurd rfl h
  | cons s segments =>
    have hwords : wordsIn (Path.layout ⟨s :: segments⟩) =
        .ident s :: segments.flatMap fun s => [.punct .doubleColon, .ident s] := by
      unfold Path.layout
      clear h
      induction segments generalizing s with
      | nil => rfl
      | cons x xs ih => simpa [separated] using ih x
    exact hwords ▸ .mk s (spells_segments segments)

theorem spells_actionRef {r : ActionRef} (h : r.Writable) :
    SpellsActionRef (wordsIn r.layout) r := by
  obtain ⟨type, id⟩ := r
  cases type with
  | none =>
    show SpellsActionRef (wordsIn [Piece.name id]) _
    rw [wordsIn_name, nameWord]
    split
    · exact .ident id
    · exact .str id
  | some p =>
    have := SpellsActionRef.typed id (spells_path (h p rfl).nonempty)
    simpa [ActionRef.layout] using this

theorem spells_paths {paths : List Path} (h : ∀ p ∈ paths, p.Writable) :
    OneOrBracketed SpellsPath (wordsIn (pathList paths)) paths := by
  have := bracketed_layout (g := id) fun p hp => spells_path (h p hp).nonempty
  rwa [List.map_id] at this

theorem spells_preamble (depth : Nat) (comments : Comments) {annotations : List Annotation}
    (h : WritableAnnotations annotations) :
    SpellsAnn (wordsIn (preamble depth comments annotations)) annotations := by
  refine ⟨?_, h.nodup⟩
  obtain ⟨-, -⟩ := h
  rw [preamble, wordsIn_append, wordsIn_commentLines, List.nil_append]
  induction annotations with
  | nil => exact .none
  | cons a as ih =>
    obtain ⟨key, value⟩ := a
    rw [List.flatMap_cons, wordsIn_append]
    cases value with
    | none => exact .more key .none ih
    | some v => exact .more key (.some (.mk v)) ih

/-! ## Types -/

theorem bareAttributes_map_name (attributes : List (Attribute TypeExpr)) :
    (bareAttributes attributes).map Attribute.name = attributes.map Attribute.name := by
  induction attributes with
  | nil => rfl
  | cons a as ih =>
    rw [bareAttributes, List.map_cons, List.map_cons, ih]

mutual

theorem spells_type (depth : Nat) : (t : TypeExpr) → t.Writable →
    SpellsType (wordsIn (t.layout depth)) t.plain.bare
  | .path _, h => .path (spells_path h.nonempty)
  | .entity _, h => .path (spells_path h.nonempty)
  | .set element, h => by
    have := SpellsType.set (spells_type depth element h)
    simpa [TypeExpr.layout, TypeExpr.plain, TypeExpr.bare] using this
  | .record r, h => .record (spells_record depth r h)
termination_by structural t => t

theorem spells_record (depth : Nat) : (r : Record TypeExpr) → Record.Writable r →
    SpellsRecord (wordsIn (r.layout depth)) (Record.plain r).bare
  | ⟨attributes, comments⟩, h => by
    have hnames : ((bareAttributes (plainAttributes attributes)).map Attribute.name).Nodup := by
      rw [bareAttributes_map_name, plainAttributes_map_name]
      exact h.2.1
    have := SpellsRecord.mk (spells_attributes (depth + 1) attributes h.1) hnames
    simpa [Record.layout, Record.plain, Record.bare] using this
termination_by structural r => r

theorem spells_attributes (depth : Nat) : (attributes : List (Attribute TypeExpr)) →
    WritableAttributes attributes →
      Items SpellsAttribute (wordsIn (attributeLines depth attributes))
        (bareAttributes (plainAttributes attributes))
  | [], _ => .none
  | ⟨name, type, required, annotations, comments⟩ :: rest, ⟨⟨htype, hannotations, _⟩, hrest⟩ => by
    have hpresence : SpellsPresence (wordsIn (presenceMark required)) required := by
      cases required
      · exact .optional
      · exact .required
    have hfirst := SpellsAttribute.mk (spells_preamble depth comments hannotations)
      (spells_name name) hpresence (spells_type depth type htype)
    have := Items.more hfirst (spells_attributes depth rest hrest)
    simpa [attributeLines, plainAttributes, bareAttributes] using this
termination_by structural attributes => attributes

end

/-! ## Declarations -/

section

variable {depth : Nat}

theorem spells_idents {names : List String} (h : names ≠ []) :
    Commas SpellsIdent (wordsIn (commas (names.map fun n => [ident n]))) names := by
  have := commas_layout (f := fun n => [ident n]) (g := id) (fun n _ => SpellsIdent.mk n) h
  rwa [List.map_id] at this

theorem spells_entity {d : EntityDecl} (h : d.Writable) :
    SpellsDecl d.annotations (wordsIn (d.layout depth) ++ [.punct .semicolon])
      (Decl.entity d).plain.bare := by
  obtain ⟨names, parents, shape, tags, annotations, comments⟩ := d
  obtain ⟨o, hparents, ho⟩ := listClause_layout "in" (spells_paths h.parents)
  have hshape := optional_layout fun r hr =>
    SpellsShape.bare (spells_record depth r (h.shape r hr))
  have htag (t : TypeExpr) (ht : tags = some t) : AfterWord "tags" SpellsType
      (.ident "tags" :: wordsIn (t.layout depth)) t.plain.bare :=
    .mk (spells_type depth t (h.tags t ht))
  have : SpellsDecl annotations _ _ :=
    .entity (spells_idents h.names) hparents hshape (optional_layout htag)
  cases shape <;> cases tags <;>
    simpa [EntityDecl.layout, Decl.plain, EntityDecl.plain, Decl.bare, ho] using this

theorem spells_enum {d : EnumDecl} (h : d.Writable) :
    SpellsDecl d.annotations (wordsIn d.layout ++ [.punct .semicolon])
      (Decl.enum d).plain.bare := by
  have hvalues : Items SpellsString (wordsIn (commas (d.values.map fun v => [str v])))
      (d.values.map id) := items_layout fun v _ => .mk v
  rw [List.map_id] at hvalues
  have : SpellsDecl d.annotations _ _ := .enum (spells_idents h.names) hvalues h.values
  simpa [EnumDecl.layout, bracketed, Decl.plain, Decl.bare] using this

theorem spells_commonType {d : CommonTypeDecl} (h : d.Writable) :
    SpellsDecl d.annotations (wordsIn (d.layout depth) ++ [.punct .semicolon])
      (Decl.commonType d).plain.bare := by
  have : SpellsDecl d.annotations _ _ :=
    .commonType d.name h.notReserved (spells_type depth d.type h.type)
  simpa [CommonTypeDecl.layout, Decl.plain, CommonTypeDecl.plain, Decl.bare] using this

/-- A member of an appliesTo clause that may be absent, on a line that ends in a comma. -/
theorem items_member {α : Type} {o : Option α} {words : α → List Lexeme} {c : α → MemberClause}
    {rest : List Lexeme} {cs : List MemberClause} (h : ∀ x ∈ o, SpellsMember (words x) (c x))
    (hrest : Items SpellsMember rest cs) :
    Items SpellsMember (o.elim [] (fun x => words x ++ [.punct .comma]) ++ rest)
      ((o.map c).toList ++ cs) := by
  cases o with
  | none => exact hrest
  | some x => simpa using Items.more (h x rfl) hrest

theorem spells_appliesTo {a : AppliesTo} (h : a.Writable) :
    SpellsAppliesTo (wordsIn (a.layout depth)) a.plain.bare := by
  obtain ⟨principals, resources, context, comments⟩ := a
  have hcontext := items_member (fun t ht => .context (spells_type (depth + 1) t (h.context t ht)))
    Items.none
  have hresources := items_member (fun rs hrs => .resources (spells_paths (h.resources rs hrs)))
    hcontext
  have hmembers := items_member (fun ps hps => .principals (spells_paths (h.principals ps hps)))
    hresources
  cases principals <;> cases resources <;> cases context <;>
    simpa [AppliesTo.layout, clauseLine, AppliesTo.plain, AppliesTo.bare, put] using
      SpellsAppliesTo.mk hmembers (by simp [MemberClause.member])

theorem spells_action {d : ActionDecl} (h : d.Writable) :
    SpellsDecl d.annotations (wordsIn (d.layout depth) ++ [.punct .semicolon])
      (Decl.action d).plain.bare := by
  obtain ⟨names, parents, appliesTo, annotations, comments⟩ := d
  have hnames := commas_layout (f := fun n => [Piece.name n]) (g := id)
    (fun n _ => by rw [wordsIn_name]; exact spells_name n) h.names
  have hrefs := bracketed_layout (g := id) fun r hr => spells_actionRef (h.parents r hr)
  rw [List.map_id] at hnames hrefs
  obtain ⟨o, hparents, ho⟩ := listClause_layout "in" hrefs
  have hclause (a : AppliesTo) (ha : appliesTo = some a) : AfterWord "appliesTo" SpellsAppliesTo
      (.ident "appliesTo" :: wordsIn (a.layout depth)) a.plain.bare :=
    .mk (spells_appliesTo (h.appliesTo a ha))
  have : SpellsDecl annotations _ _ :=
    .action hnames hparents (optional_layout hclause) .none
  cases appliesTo <;>
    simpa [ActionDecl.layout, Decl.plain, ActionDecl.plain, Decl.bare, ho] using this

/-- Behind its annotations a declaration is printed as the grammar has it. -/
theorem spells_decl (depth : Nat) {d : Decl} (h : d.Writable) : ∃ ws,
    wordsIn (d.layout depth) = wordsIn (preamble depth d.comments d.annotations) ++ ws ∧
      SpellsDecl d.annotations ws d.plain.bare := by
  refine ⟨_, wordsIn_append, ?_⟩
  have hbody := h.body
  cases d with
  | entity d => simpa [Decl.annotations] using spells_entity hbody
  | enum d => simpa [Decl.annotations] using spells_enum hbody
  | action d => simpa [Decl.annotations] using spells_action hbody
  | commonType d => simpa [Decl.annotations] using spells_commonType hbody

end

/-! ## Blocks and files -/

theorem wordsIn_separated (items : List (List Piece)) :
    wordsIn (separated [newline] items) = items.flatMap wordsIn := by
  induction items with
  | nil => rfl
  | cons i is ih =>
    cases is with
    | nil => simp [separated]
    | cons j js => simp [separated, ih]

theorem spells_decls (depth : Nat) {decls : List Decl} (h : ∀ d ∈ decls, d.Writable) :
    SpellsDecls (decls.flatMap fun d => wordsIn (d.layout depth))
      ((decls.map Decl.plain).map Decl.bare) := by
  induction decls with
  | nil => exact .none
  | cons d ds ih =>
    obtain ⟨hd, hds⟩ := List.forall_mem_cons.1 h
    obtain ⟨ws, hwords, hdecl⟩ := spells_decl depth hd
    rw [List.flatMap_cons, hwords]
    exact .more (spells_preamble depth d.comments hd.annotations) hdecl (ih hds)

theorem spells_block {b : NamespaceBlock} (h : b.Writable) : ∃ ws,
    wordsIn b.layout = wordsIn (preamble 0 b.comments b.annotations) ++ ws ∧
      SpellsBlock b.annotations ws b.plain.bare := by
  refine ⟨_, wordsIn_append, ?_⟩
  have : SpellsBlock b.annotations _ _ :=
    .mk (spells_path h.path.nonempty) (spells_decls 1 h.decls)
  simpa [wordsIn_separated, NamespaceBlock.plain, NamespaceBlock.bare, List.flatMap_map] using this

/-- The words of an item are those of annotations and of what is said behind them. -/
theorem spells_item {i : Item} (h : i.Writable) : ∃ annotations ws₁ ws₂,
    wordsIn i.layout = ws₁ ++ ws₂ ∧ SpellsAnn ws₁ annotations ∧
      SpellsItem annotations ws₂ i.plain.bare := by
  cases i with
  | decl d =>
    have hd : d.Writable := h
    obtain ⟨ws, hwords, hdecl⟩ := spells_decl 0 hd
    exact ⟨_, _, ws, hwords, spells_preamble 0 d.comments hd.annotations, .decl hdecl⟩
  | block b =>
    have hb : b.Writable := h
    obtain ⟨ws, hwords, hblock⟩ := spells_block hb
    exact ⟨_, _, ws, hwords, spells_preamble 0 b.comments hb.annotations, .block hblock⟩

theorem spells_items {items : List Item} (h : ∀ i ∈ items, i.Writable) :
    SpellsSchema (items.flatMap fun i => wordsIn i.layout)
      ⟨(items.map Item.plain).map Item.bare, []⟩ := by
  induction items with
  | nil => exact .none
  | cons i is ih =>
    obtain ⟨hi, his⟩ := List.forall_mem_cons.1 h
    obtain ⟨annotations, ws₁, ws₂, hwords, hannotations, hitem⟩ := spells_item hi
    rw [List.flatMap_cons, hwords]
    exact .more hannotations hitem (ih his)

/-- The layout of a writable schema is spelled by the grammar. -/
theorem spells_layout {s : Schema} (h : s.Writable) :
    SpellsSchema (wordsIn s.layout) s.plain.bare := by
  have hwords : wordsIn s.layout = s.items.flatMap fun i => wordsIn i.layout := by
    rw [Schema.layout, wordsIn_append, wordsIn_separated, List.flatMap_map]
    split
    · exact List.append_nil _
    · split <;> simp
  rw [hwords]
  exact spells_items h.items

end Grammar

namespace Schema

/-- The canonical text of a schema that text can express is read, as a schema that is equal to it
but for plain references and the places of comments. -/
theorem Writable.exists_parse_format {s : Schema} (h : s.Writable) :
    ∃ t, parse s.format = .ok t ∧ t.bare = s.plain.bare := by
  obtain ⟨tokens, ht, -, hwords⟩ := h.ends_tokenize_format.exists_ok
  rw [words_tokens] at hwords
  exact (spells_of_parse ht).2 _ (hwords ▸ Grammar.spells_layout h)

end Schema

end CedarSchema
