import CedarSchema.Proofs.Schema.Layout

/-
  The schemas that text can express. Names that stand bare in text have to be identifiers, comments
  have to be comments and to stand where the grammar has a place for them, and nothing may be
  declared twice that text may not declare twice. Names of actions and attributes, ids and values
  are any texts. The layout of a writable schema is legible (`Schema.Writable.legible`).
-/

namespace CedarSchema

open Text Piece

/-! ## Names, comments and annotations -/

structure Path.Writable (p : Path) : Prop where
  nonempty : p.segments ≠ []
  segments : ∀ s ∈ p.segments, isIdent s = true

/-- Every comment is read as itself. -/
structure Comments.Writable (c : Comments) : Prop where
  before : ∀ text ∈ c.before, IsComment text
  inline : ∀ text ∈ c.inline, IsComment text
  remaining : ∀ text ∈ c.remaining, IsComment text

/-- The comments of a node without braces of its own. -/
structure Comments.AtNode (c : Comments) : Prop extends c.Writable where
  noRemaining : c.remaining = []

/-- The comments between braces, of which only the last ones are not those of a node. -/
structure Comments.InBraces (c : Comments) : Prop extends c.Writable where
  noBefore : c.before = []
  noInline : c.inline = none

theorem Comments.AtNode.eq {c : Comments} (h : c.AtNode) :
    c = { before := c.before, inline := c.inline } := by
  rw [← h.noRemaining]

theorem Comments.InBraces.eq {c : Comments} (h : c.InBraces) :
    c = { remaining := c.remaining } := by
  rw [← h.noBefore, ← h.noInline]

/-- Annotations of one node. -/
structure WritableAnnotations (annotations : List Annotation) : Prop where
  idents : ∀ a ∈ annotations, isIdent a.key = true
  nodup : (annotations.map Annotation.key).Nodup

def ActionRef.Writable (r : ActionRef) : Prop := ∀ p ∈ r.type, p.Writable

/-! ## Types -/

mutual

def TypeExpr.Writable : TypeExpr → Prop
  | .path p => p.Writable
  | .entity p => p.Writable
  | .set element => element.Writable
  | .record r => Record.Writable r
termination_by structural t => t

def Record.Writable : Record TypeExpr → Prop
  | ⟨attributes, comments⟩ =>
    WritableAttributes attributes ∧ (attributes.map Attribute.name).Nodup ∧ comments.InBraces
termination_by structural r => r

/-- Attributes that are writable each by itself. -/
def WritableAttributes : List (Attribute TypeExpr) → Prop
  | [] => True
  | ⟨_, type, _, annotations, comments⟩ :: rest =>
    (type.Writable ∧ WritableAnnotations annotations ∧ comments.AtNode) ∧ WritableAttributes rest
termination_by structural attributes => attributes

end

/-! ## Declarations -/

structure EntityDecl.Writable (d : EntityDecl) : Prop where
  names : d.names ≠ []
  idents : ∀ n ∈ d.names, isIdent n = true
  parents : ∀ p ∈ d.parents, p.Writable
  shape : ∀ r ∈ d.shape, Record.Writable r
  tags : ∀ t ∈ d.tags, t.Writable

structure EnumDecl.Writable (d : EnumDecl) : Prop where
  names : d.names ≠ []
  idents : ∀ n ∈ d.names, isIdent n = true
  values : d.values ≠ []

structure AppliesTo.Writable (a : AppliesTo) : Prop where
  principals : ∀ ps ∈ a.principals, ∀ p ∈ ps, p.Writable
  resources : ∀ rs ∈ a.resources, ∀ r ∈ rs, r.Writable
  context : ∀ t ∈ a.context, t.Writable
  comments : a.comments.InBraces

structure ActionDecl.Writable (d : ActionDecl) : Prop where
  names : d.names ≠ []
  parents : ∀ r ∈ d.parents, r.Writable
  appliesTo : ∀ a ∈ d.appliesTo, a.Writable

structure CommonTypeDecl.Writable (d : CommonTypeDecl) : Prop where
  ident : isIdent d.name = true
  notReserved : isReservedTypeName d.name = false
  type : d.type.Writable

/-- What is said in a declaration apart from annotations and comments. -/
def Decl.WritableBody : Decl → Prop
  | .entity d => d.Writable
  | .enum d => d.Writable
  | .action d => d.Writable
  | .commonType d => d.Writable

structure Decl.Writable (d : Decl) : Prop where
  body : d.WritableBody
  annotations : WritableAnnotations d.annotations
  comments : d.comments.AtNode

/-! ## Files -/

structure NamespaceBlock.Writable (b : NamespaceBlock) : Prop where
  path : b.path.Writable
  decls : ∀ d ∈ b.decls, d.Writable
  annotations : WritableAnnotations b.annotations
  comments : b.comments.Writable

def Item.Writable : Item → Prop
  | .block b => b.Writable
  | .decl d => d.Writable

structure Schema.Writable (s : Schema) : Prop where
  items : ∀ i ∈ s.items, i.Writable
  remaining : ∀ text ∈ s.remaining, IsComment text

/-! ## What text keeps -/

mutual

/-- The type as text gives it back: a reference to an entity type is a path like any other. -/
def TypeExpr.plain : TypeExpr → TypeExpr
  | .path p => .path p
  | .entity p => .path p
  | .set element => .set element.plain
  | .record r => .record (Record.plain r)
termination_by structural t => t

def Record.plain : Record TypeExpr → Record TypeExpr
  | ⟨attributes, comments⟩ => ⟨plainAttributes attributes, comments⟩
termination_by structural r => r

def plainAttributes : List (Attribute TypeExpr) → List (Attribute TypeExpr)
  | [] => []
  | ⟨name, type, required, annotations, comments⟩ :: rest =>
    ⟨name, type.plain, required, annotations, comments⟩ :: plainAttributes rest
termination_by structural attributes => attributes

end

theorem plainAttributes_map_name (attributes : List (Attribute TypeExpr)) :
    (plainAttributes attributes).map Attribute.name = attributes.map Attribute.name := by
  induction attributes with
  | nil => rfl
  | cons a rest ih => exact congrArg (a.name :: ·) ih

def EntityDecl.plain (d : EntityDecl) : EntityDecl :=
  { d with shape := d.shape.map Record.plain, tags := d.tags.map TypeExpr.plain }

def AppliesTo.plain (a : AppliesTo) : AppliesTo :=
  { a with context := a.context.map TypeExpr.plain }

def ActionDecl.plain (d : ActionDecl) : ActionDecl :=
  { d with appliesTo := d.appliesTo.map AppliesTo.plain }

def CommonTypeDecl.plain (d : CommonTypeDecl) : CommonTypeDecl := { d with type := d.type.plain }

def Decl.plain : Decl → Decl
  | .entity d => .entity d.plain
  | .enum d => .enum d
  | .action d => .action d.plain
  | .commonType d => .commonType d.plain

def NamespaceBlock.plain (b : NamespaceBlock) : NamespaceBlock :=
  { b with decls := b.decls.map Decl.plain }

def Item.plain : Item → Item
  | .block b => .block b.plain
  | .decl d => .decl d.plain

/-- The schema with every reference to an entity type turned into a plain path. -/
def Schema.plain (s : Schema) : Schema := { s with items := s.items.map Item.plain }

/-! ## Legible layouts -/

section

variable {rest : List Piece}

theorem legible_commentLines {depth : Nat} {comments : List String}
    (h : ∀ text ∈ comments, IsComment text) : Legible (commentLines depth comments) rest := by
  induction comments with
  | nil => exact legible_nil
  | cons c cs ih =>
    obtain ⟨hc, hcs⟩ := List.forall_mem_cons.1 h
    show Legible (indent depth :: comment c :: newline :: commentLines depth cs) rest
    simp [hc, ih hcs]

theorem legible_lineEnd {c : Comments} (h : c.Writable) : Legible (lineEnd c) rest := by
  rw [lineEnd]
  cases hc : c.inline with
  | none => simp
  | some text => simp [h.inline text hc]

theorem legible_name {name : String} {ps : List Piece} (hb : Breaks (ps ++ rest)) :
    Legible (Piece.name name :: ps) rest ↔ Legible ps rest := by
  rw [Piece.name]
  split
  · rename_i h
    simp [legible_ident, h, hb]
  · exact legible_str

/-- Legible wherever something stands behind that separates. -/
def Piece.LegibleItem (item : List Piece) : Prop := ∀ rest, Breaks rest → Legible item rest

/-- Items are legible side by side if each is legible in front of whatever fulfils `R`, and the
separator makes sure of `R`. -/
theorem legible_separated {R : List Piece → Prop} {sep : List Piece} {items : List (List Piece)}
    (hsep : ∀ rest, Legible sep rest ∧ R (sep ++ rest))
    (h : ∀ i ∈ items, ∀ rest, R rest → Legible i rest) (hr : R rest) :
    Legible (separated sep items) rest := by
  induction items with
  | nil => exact legible_nil
  | cons i is ih =>
    obtain ⟨hi, his⟩ := List.forall_mem_cons.1 h
    cases is with
    | nil => exact hi rest hr
    | cons j js =>
      rw [separated, List.append_assoc, legible_append, legible_append]
      · refine ⟨hi _ ?_, (hsep _).1, ih his⟩
        rw [List.append_assoc]
        exact (hsep _).2
      · simp

theorem legible_commas {items : List (List Piece)} (h : ∀ i ∈ items, LegibleItem i)
    (hr : Breaks rest) : Legible (commas items) rest :=
  legible_separated (R := Breaks) (by simp) h hr

theorem legible_bracketed {items : List (List Piece)} (h : ∀ i ∈ items, LegibleItem i) :
    Legible (bracketed items) rest := by
  rw [bracketed, legible_punct (by simp), legible_append]
  exact ⟨legible_commas h (by simp), by simp⟩

theorem Path.Writable.legible {p : Path} (h : p.Writable) : LegibleItem p.layout := by
  intro rest hr
  refine legible_separated (R := Breaks) (by simp) ?_ hr
  intro item hi
  obtain ⟨s, hs, rfl⟩ := List.mem_map.1 hi
  intro rest hr
  simp [legible_ident, h.segments s hs, hr]

theorem legible_annotations {depth : Nat} {annotations : List Annotation}
    (h : ∀ a ∈ annotations, isIdent a.key = true) :
    Legible (annotations.flatMap fun a => indent depth :: (a.layout ++ [newline])) rest := by
  induction annotations with
  | nil => exact legible_nil
  | cons a as ih =>
    obtain ⟨ha, has⟩ := List.forall_mem_cons.1 h
    rw [List.flatMap_cons, legible_append]
    refine ⟨?_, ih has⟩
    unfold Annotation.layout
    cases a.value <;> simp [legible_ident, ha]

theorem legible_preamble {depth : Nat} {comments : Comments} {annotations : List Annotation}
    (hc : comments.Writable) (ha : WritableAnnotations annotations) :
    Legible (preamble depth comments annotations) rest :=
  legible_append.2 ⟨legible_commentLines hc.before, legible_annotations ha.idents⟩

theorem legible_braced {depth : Nat} {inner : List Piece}
    (h : Legible inner (indent depth :: punct .rightBrace :: rest)) :
    Legible (braced depth inner) rest := by
  rw [braced]
  split
  · simp
  · rw [legible_punct (by simp), legible_newline, legible_append]
    exact ⟨h, by simp⟩

end

mutual

theorem TypeExpr.legible_layout (depth : Nat) :
    (t : TypeExpr) → t.Writable → LegibleItem (t.layout depth)
  | .path p, h => h.legible
  | .entity p, h => h.legible
  | .set element, h => by
    intro rest hr
    have helement := TypeExpr.legible_layout depth element h (punct .rightAngle :: rest) (by simp)
    rw [TypeExpr.layout]
    simp +decide [legible_ident, legible_append, helement]
  | .record r, h => Record.legible_layout depth r h
termination_by t => sizeOf t

theorem Record.legible_layout (depth : Nat) :
    (r : Record TypeExpr) → Record.Writable r → LegibleItem (Record.layout depth r)
  | ⟨attributes, comments⟩, h => by
    intro rest hr
    obtain ⟨ha, -, hc⟩ := h
    refine legible_braced (legible_append.2 ⟨?_, legible_commentLines hc.remaining⟩)
    exact legible_attributeLines (depth + 1) attributes ha _
termination_by r => sizeOf r

theorem legible_attributeLines (depth : Nat) :
    (attributes : List (Attribute TypeExpr)) → WritableAttributes attributes →
      ∀ rest, Legible (attributeLines depth attributes) rest
  | [], _, _ => legible_nil
  | ⟨n, type, required, annotations, comments⟩ :: others, h, rest => by
    obtain ⟨⟨ht, ha, hc⟩, hothers⟩ := h
    have hothers := legible_attributeLines depth others hothers rest
    have htype := TypeExpr.legible_layout depth type ht
      (punct .comma :: (lineEnd comments ++ (attributeLines depth others ++ rest))) (by simp)
    rw [attributeLines, legible_append]
    refine ⟨legible_preamble hc.toWritable ha, ?_⟩
    rw [legible_indent, legible_name]
    · cases required <;>
        simp [presenceMark, legible_append, htype, hothers, legible_lineEnd hc.toWritable]
    · cases required <;> simp [presenceMark]
termination_by attributes => sizeOf attributes

end

/-! ## Legible declarations -/

namespace Piece

/-- Legible behind a legible item, though it may be empty. -/
def LegibleClause (ps : List Piece) : Prop :=
  LegibleItem ps ∧ ∀ rest, Breaks rest → Breaks (ps ++ rest)

variable {ps qs : List Piece}

theorem legibleClause_nil : LegibleClause [] := ⟨fun _ _ => legible_nil, fun _ => id⟩

theorem legibleClause_space (h : LegibleItem ps) : LegibleClause (space :: ps) :=
  ⟨h, fun _ _ => breaks_space⟩

theorem LegibleItem.append (hp : LegibleItem ps) (hq : LegibleClause qs) :
    LegibleItem (ps ++ qs) :=
  fun rest hr => legible_append.2 ⟨hp _ (hq.2 rest hr), hq.1 rest hr⟩

/-- A word and a space in front of a legible item. -/
theorem LegibleItem.word {w : String} (hw : isIdent w = true) (h : LegibleItem ps) :
    LegibleItem (ident w :: space :: ps) :=
  fun rest hr => legible_ident.2 ⟨hw, breaks_space, h rest hr⟩

end Piece

section

variable {depth : Nat} {rest : List Piece}

theorem legible_names {names : List String} (h : ∀ n ∈ names, isIdent n = true) :
    LegibleItem (commas (names.map fun n => [ident n])) := by
  refine fun rest => legible_commas ?_
  intro item hi
  obtain ⟨n, hn, rfl⟩ := List.mem_map.1 hi
  intro rest hr
  simp [legible_ident, h n hn, hr]

theorem legible_pathList {paths : List Path} (h : ∀ p ∈ paths, p.Writable) :
    Legible (pathList paths) rest := by
  refine legible_bracketed ?_
  intro item hi
  obtain ⟨p, hp, rfl⟩ := List.mem_map.1 hi
  exact (h p hp).legible

theorem ActionRef.Writable.legible {r : ActionRef} (h : r.Writable) : LegibleItem r.layout := by
  intro rest hr
  rw [ActionRef.layout]
  cases ht : r.type with
  | none =>
    rw [legible_name]
    · exact legible_nil
    · exact hr
  | some p =>
    have hp := (h p ht).legible (punct .doubleColon :: str r.id :: rest) breaks_punct
    simp [legible_append, hp]

theorem EntityDecl.Writable.legible {d : EntityDecl} (h : d.Writable) :
    LegibleItem (d.layout depth) := by
  have hnames := (legible_names h.idents).word (w := "entity") (by decide)
  refine ((hnames.append ?_).append ?_).append ?_
  · split
    · exact legibleClause_nil
    · exact legibleClause_space (.word (by decide) fun _ _ => legible_pathList h.parents)
  · cases hs : d.shape with
    | none => exact legibleClause_nil
    | some r => exact legibleClause_space (Record.legible_layout depth r (h.shape r hs))
  · cases ht : d.tags with
    | none => exact legibleClause_nil
    | some t =>
      exact legibleClause_space (.word (by decide) (TypeExpr.legible_layout depth t (h.tags t ht)))

theorem EnumDecl.Writable.legible {d : EnumDecl} (h : d.Writable) : LegibleItem d.layout := by
  have hnames := (legible_names h.idents).word (w := "entity") (by decide)
  rw [EnumDecl.layout, List.append_assoc]
  refine hnames.append (legibleClause_space ?_)
  refine LegibleItem.word (w := "enum") (by decide) fun _ _ => legible_bracketed ?_
  intro item hi
  obtain ⟨v, -, rfl⟩ := List.mem_map.1 hi
  exact fun _ _ => by simp

theorem legible_clauseLine {word : String} {value : List Piece} (hw : isIdent word = true)
    (h : LegibleItem value) : Legible (clauseLine depth word value) rest := by
  have hvalue := h (punct .comma :: newline :: rest) breaks_punct
  rw [clauseLine]
  simp [legible_ident, legible_append, hw, hvalue]

theorem AppliesTo.Writable.legible {a : AppliesTo} (h : a.Writable) :
    Legible (a.layout depth) rest := by
  refine legible_braced (legible_append.2 ⟨legible_append.2 ⟨legible_append.2 ⟨?_, ?_⟩, ?_⟩, ?_⟩)
  · cases hp : a.principals with
    | none => exact legible_nil
    | some ps =>
      exact legible_clauseLine (by decide) fun _ _ => legible_pathList (h.principals ps hp)
  · cases hr : a.resources with
    | none => exact legible_nil
    | some rs =>
      exact legible_clauseLine (by decide) fun _ _ => legible_pathList (h.resources rs hr)
  · cases ht : a.context with
    | none => exact legible_nil
    | some t =>
      exact legible_clauseLine (by decide) (TypeExpr.legible_layout (depth + 1) t (h.context t ht))
  · exact legible_commentLines h.comments.remaining

theorem ActionDecl.Writable.legible {d : ActionDecl} (h : d.Writable) :
    LegibleItem (d.layout depth) := by
  have hnames : LegibleItem (commas (d.names.map fun n => [Piece.name n])) := by
    refine fun rest => legible_commas ?_
    intro item hi
    obtain ⟨n, -, rfl⟩ := List.mem_map.1 hi
    intro rest hr
    rw [legible_name]
    · exact legible_nil
    · exact hr
  refine ((hnames.word (by decide)).append ?_).append ?_
  · split
    · exact legibleClause_nil
    · refine legibleClause_space (.word (by decide) fun _ _ => legible_bracketed ?_)
      intro item hi
      obtain ⟨r, hr, rfl⟩ := List.mem_map.1 hi
      exact (h.parents r hr).legible
  · cases ha : d.appliesTo with
    | none => exact legibleClause_nil
    | some a => exact legibleClause_space (.word (by decide) fun _ _ => (h.appliesTo a ha).legible)

theorem CommonTypeDecl.Writable.legible {d : CommonTypeDecl} (h : d.Writable) :
    LegibleItem (d.layout depth) := by
  intro rest hr
  have ht := TypeExpr.legible_layout depth d.type h.type rest hr
  rw [CommonTypeDecl.layout]
  simp +decide [legible_ident, h.ident, ht]

theorem Decl.Writable.legible {d : Decl} (h : d.Writable) : Legible (d.layout depth) rest := by
  have hsemicolon {ps : List Piece} (hps : LegibleItem ps) :
      Legible (ps ++ punct .semicolon :: lineEnd d.comments) rest := by
    refine legible_append.2 ⟨hps _ breaks_punct, ?_⟩
    rw [legible_punct (by simp)]
    exact legible_lineEnd h.comments.toWritable
  have hbody := h.body
  refine legible_append.2 ⟨legible_preamble h.comments.toWritable h.annotations, ?_⟩
  refine legible_indent.2 (hsemicolon ?_)
  cases d with
  | entity d => exact EntityDecl.Writable.legible hbody
  | enum d => exact EnumDecl.Writable.legible hbody
  | action d => exact ActionDecl.Writable.legible hbody
  | commonType d => exact CommonTypeDecl.Writable.legible hbody

/-! ## Legible files -/

theorem legible_lines {items : List (List Piece)} (h : ∀ i ∈ items, ∀ rest, Legible i rest) :
    Legible (separated [newline] items) rest :=
  legible_separated (R := fun _ => True) (by simp) (fun i hi rest _ => h i hi rest) trivial

theorem NamespaceBlock.Writable.legible {b : NamespaceBlock} (h : b.Writable) :
    Legible b.layout rest := by
  have hdecls : ∀ i ∈ b.decls.map (Decl.layout 1), ∀ rest, Legible i rest := by
    intro i hi rest
    obtain ⟨d, hd, rfl⟩ := List.mem_map.1 hi
    exact (h.decls d hd).legible
  rw [NamespaceBlock.layout, legible_append]
  refine ⟨legible_preamble h.comments h.annotations, legible_ident.2 ⟨by decide, by simp, ?_⟩⟩
  rw [legible_space, legible_append, legible_space, legible_append]
  refine ⟨h.path.legible _ breaks_space, legible_braced ?_, legible_lineEnd h.comments⟩
  exact legible_append.2 ⟨legible_lines hdecls, legible_commentLines h.comments.remaining⟩

/-- The layout of a writable schema is legible. -/
theorem Schema.Writable.legible {s : Schema} (h : s.Writable) : Legible s.layout rest := by
  have hitems : ∀ i ∈ s.items.map Item.layout, ∀ rest, Legible i rest := by
    intro i hi rest
    obtain ⟨item, hitem, rfl⟩ := List.mem_map.1 hi
    have hw := h.items item hitem
    cases item with
    | block b => exact NamespaceBlock.Writable.legible hw
    | decl d => exact Decl.Writable.legible hw
  refine legible_append.2 ⟨legible_lines hitems, ?_⟩
  split
  · exact legible_nil
  · refine legible_append.2 ⟨?_, legible_commentLines h.remaining⟩
    split <;> simp

end

end CedarSchema
