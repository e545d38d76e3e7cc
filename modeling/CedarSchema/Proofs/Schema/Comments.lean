import CedarSchema.Proofs.Schema.Writable
import Mathlib.Algebra.BigOperators.Group.Multiset.Basic
import Mathlib.Tactic.Abel

/-
  The comments of a tree, and those of its layout. A writable schema is laid out with each of its
  comments and with no other (`Schema.Writable.remarksOf_layout`). Lines are told apart by counters
  that go round, so a comment can be told from one on the line of the lexeme before it only if it is
  not a whole round below (`Piece.LinesFit`); where there is no comment that asks nothing.
-/

namespace CedarSchema

open Piece

/-! ## The comments of a tree -/

/-- All comments of one node. -/
def Comments.all (c : Comments) : Multiset String :=
  (c.before : Multiset String) + (c.inline.toList : Multiset String) +
    (c.remaining : Multiset String)

mutual

/-- All comments inside a type. -/
def TypeExpr.allComments : TypeExpr → Multiset String
  | .path _ => 0
  | .entity _ => 0
  | .set element => element.allComments
  | .record r => Record.allComments r
termination_by structural t => t

/-- All comments at a record and inside it. -/
def Record.allComments : Record TypeExpr → Multiset String
  | ⟨attributes, comments⟩ => attributeComments attributes + comments.all
termination_by structural r => r

/-- All comments at attributes and inside them. -/
def attributeComments : List (Attribute TypeExpr) → Multiset String
  | [] => 0
  | ⟨_, type, _, _, comments⟩ :: rest =>
    comments.all + type.allComments + attributeComments rest
termination_by structural attributes => attributes

end

/-- All comments at an appliesTo clause and inside it. -/
def AppliesTo.allComments (a : AppliesTo) : Multiset String :=
  a.context.elim 0 TypeExpr.allComments + a.comments.all

/-- All comments inside the clauses of a declaration. -/
def Decl.innerComments : Decl → Multiset String
  | .entity d => d.shape.elim 0 Record.allComments + d.tags.elim 0 TypeExpr.allComments
  | .enum _ => 0
  | .action d => d.appliesTo.elim 0 AppliesTo.allComments
  | .commonType d => d.type.allComments

/-- All comments at a declaration and inside it. -/
def Decl.allComments (d : Decl) : Multiset String := d.comments.all + d.innerComments

/-- All comments at a namespace block and inside it. -/
def NamespaceBlock.allComments (b : NamespaceBlock) : Multiset String :=
  b.comments.all + (b.decls.map Decl.allComments).sum

/-- All comments at an item and inside it. -/
def Item.allComments : Item → Multiset String
  | .block b => b.allComments
  | .decl d => d.allComments

/-- All comments that the tree of a file holds. -/
def Schema.allComments (s : Schema) : Multiset String :=
  (s.items.map Item.allComments).sum + (s.remaining : Multiset String)

theorem Comments.AtNode.all_eq {c : Comments} (h : c.AtNode) :
    c.all = (c.before : Multiset String) + (c.inline.toList : Multiset String) := by
  rw [Comments.all, h.noRemaining, Multiset.coe_nil, add_zero]

theorem Comments.InBraces.all_eq {c : Comments} (h : c.InBraces) :
    c.all = (c.remaining : Multiset String) := by
  rw [Comments.all, h.noBefore, h.noInline]
  simp

/-! ## The comments of a layout -/

/-- The comment that a lexeme is. -/
def Lexeme.remarks : Lexeme → Multiset String
  | .comment text => {text}
  | _ => 0

namespace Piece

/-- The comment that a piece is. -/
def remarks : Piece → Multiset String
  | lexeme l => l.remarks
  | _ => 0

/-- The comments of a layout. -/
def remarksOf (ps : List Piece) : Multiset String := (ps.map remarks).sum

section

variable {ps qs : List Piece} {depth : Nat}

@[simp] theorem remarks_space : space.remarks = 0 := rfl
@[simp] theorem remarks_newline : newline.remarks = 0 := rfl
@[simp] theorem remarks_indent : (indent depth).remarks = 0 := rfl
@[simp] theorem remarks_ident {text : String} : (ident text).remarks = 0 := rfl
@[simp] theorem remarks_str {text : String} : (str text).remarks = 0 := rfl
@[simp] theorem remarks_punct {p : Punct} : (punct p).remarks = 0 := rfl
@[simp] theorem remarks_comment {text : String} : (comment text).remarks = {text} := rfl

@[simp] theorem remarks_name {text : String} : (name text).remarks = 0 := by
  rw [name]
  split <;> rfl

@[simp] theorem remarksOf_nil : remarksOf [] = 0 := rfl

@[simp] theorem remarksOf_cons {p : Piece} : remarksOf (p :: ps) = p.remarks + remarksOf ps := by
  rw [remarksOf, List.map_cons, List.sum_cons, remarksOf]

@[simp] theorem remarksOf_append : remarksOf (ps ++ qs) = remarksOf ps + remarksOf qs := by
  rw [remarksOf, List.map_append, List.sum_append, remarksOf, remarksOf]

@[simp] theorem remarksOf_commentLines {comments : List String} :
    remarksOf (commentLines depth comments) = (comments : Multiset String) := by
  induction comments with
  | nil => rfl
  | cons c cs ih =>
    show remarksOf (indent depth :: comment c :: newline :: commentLines depth cs) = _
    simp [ih]

@[simp] theorem remarksOf_lineEnd {c : Comments} :
    remarksOf (lineEnd c) = (c.inline.toList : Multiset String) := by
  rw [lineEnd]
  cases c.inline <;> simp

/-- The comments of items side by side, where the separator has none. -/
theorem remarksOf_separated {sep : List Piece} (hsep : remarksOf sep = 0)
    (items : List (List Piece)) : remarksOf (separated sep items) = (items.map remarksOf).sum := by
  induction items with
  | nil => rfl
  | cons i is ih =>
    cases is with
    | nil => simp [separated]
    | cons j js => simp [separated, hsep, ih]

/-- Nothing is a comment between brackets where no item has one. -/
theorem remarksOf_commas {items : List (List Piece)} (h : ∀ i ∈ items, remarksOf i = 0) :
    remarksOf (commas items) = 0 := by
  rw [commas, remarksOf_separated (by simp)]
  exact List.sum_eq_zero (List.forall_mem_map.2 h)

theorem remarksOf_bracketed {items : List (List Piece)} (h : ∀ i ∈ items, remarksOf i = 0) :
    remarksOf (bracketed items) = 0 := by
  simp [bracketed, remarksOf_commas h]

@[simp] theorem remarksOf_braced {inner : List Piece} :
    remarksOf (braced depth inner) = remarksOf inner := by
  rw [braced]
  split
  · rename_i h
    rw [List.isEmpty_iff.1 h]
    simp
  · simp

end

end Piece

section

variable {depth : Nat}

@[simp] theorem Annotation.remarksOf_layout (a : Annotation) : remarksOf a.layout = 0 := by
  unfold Annotation.layout
  cases a.value <;> simp

@[simp] theorem remarksOf_preamble {comments : Comments} {annotations : List Annotation} :
    remarksOf (preamble depth comments annotations) = (comments.before : Multiset String) := by
  have hannotations : remarksOf (annotations.flatMap fun a =>
      indent depth :: (a.layout ++ [newline])) = 0 := by
    induction annotations with
    | nil => rfl
    | cons a as ih => simp [ih]
  rw [preamble, remarksOf_append, remarksOf_commentLines, hannotations, add_zero]

@[simp] theorem Path.remarksOf_layout (p : Path) : remarksOf p.layout = 0 := by
  rw [Path.layout, remarksOf_separated (by simp)]
  exact List.sum_eq_zero (by simp)

@[simp] theorem ActionRef.remarksOf_layout (r : ActionRef) : remarksOf r.layout = 0 := by
  unfold ActionRef.layout
  cases r.type <;> simp

@[simp] theorem remarksOf_pathList {paths : List Path} : remarksOf (pathList paths) = 0 :=
  remarksOf_bracketed (List.forall_mem_map.2 fun p _ => p.remarksOf_layout)

/-! ## Types -/

mutual

theorem TypeExpr.Writable.remarksOf_layout (depth : Nat) :
    (t : TypeExpr) → t.Writable → remarksOf (t.layout depth) = t.allComments
  | .path p, _ => p.remarksOf_layout
  | .entity p, _ => p.remarksOf_layout
  | .set element, h => by
    have helement := TypeExpr.Writable.remarksOf_layout depth element h
    simp [TypeExpr.layout, TypeExpr.allComments, helement]
  | .record r, h => Record.Writable.remarksOf_layout depth r h
termination_by t => sizeOf t

theorem Record.Writable.remarksOf_layout (depth : Nat) :
    (r : Record TypeExpr) → Record.Writable r →
      remarksOf (Record.layout depth r) = Record.allComments r
  | ⟨attributes, comments⟩, ⟨ha, _, hc⟩ => by
    have hattributes := remarksOf_attributeLines (depth + 1) attributes ha
    simp [Record.layout, Record.allComments, hattributes, hc.all_eq]
termination_by r => sizeOf r

theorem remarksOf_attributeLines (depth : Nat) :
    (attributes : List (Attribute TypeExpr)) → WritableAttributes attributes →
      remarksOf (attributeLines depth attributes) = attributeComments attributes
  | [], _ => rfl
  | ⟨n, type, required, annotations, comments⟩ :: others, ⟨⟨ht, _, hc⟩, hothers⟩ => by
    have htype := TypeExpr.Writable.remarksOf_layout depth type ht
    have hothers := remarksOf_attributeLines depth others hothers
    have hmark : remarksOf (presenceMark required) = 0 := by cases required <;> rfl
    simp only [attributeLines, remarksOf_append, remarksOf_cons, remarksOf_preamble,
      remarks_indent, remarks_name, remarks_punct, remarks_space, remarksOf_lineEnd, hmark, htype,
      hothers, zero_add, attributeComments, hc.all_eq]
    -- the inline comment stands behind the type
    abel
termination_by attributes => sizeOf attributes

end

/-! ## Declarations -/

theorem AppliesTo.Writable.remarksOf_layout {a : AppliesTo} (h : a.Writable) :
    remarksOf (a.layout depth) = a.allComments := by
  obtain ⟨principals, resources, context, comments⟩ := a
  have hcontext (t : TypeExpr) (ht : context = some t) :=
    TypeExpr.Writable.remarksOf_layout (depth + 1) t (h.context t ht)
  have hcomments := h.comments.all_eq
  cases principals <;> cases resources <;> cases context <;>
    simp_all [AppliesTo.layout, AppliesTo.allComments, clauseLine]

theorem EntityDecl.Writable.remarksOf_layout {d : EntityDecl} (h : d.Writable) :
    remarksOf (d.layout depth) = (Decl.entity d).innerComments := by
  have hnames : remarksOf (commas (d.names.map fun n => [ident n])) = 0 :=
    remarksOf_commas (by simp)
  have hparents : remarksOf (if d.parents.isEmpty then []
      else [space, ident "in", space] ++ pathList d.parents) = 0 := by
    split <;> simp
  have hshape (r : Record TypeExpr) (hr : d.shape = some r) :=
    Record.Writable.remarksOf_layout depth r (h.shape r hr)
  have htags (t : TypeExpr) (ht : d.tags = some t) :=
    TypeExpr.Writable.remarksOf_layout depth t (h.tags t ht)
  rw [EntityDecl.layout, remarksOf_append, remarksOf_append, remarksOf_append, hparents]
  cases hs : d.shape <;> cases ht : d.tags <;> simp_all [Decl.innerComments]

@[simp] theorem EnumDecl.remarksOf_layout (d : EnumDecl) : remarksOf d.layout = 0 := by
  have hnames : remarksOf (commas (d.names.map fun n => [ident n])) = 0 :=
    remarksOf_commas (by simp)
  have hvalues : remarksOf (bracketed (d.values.map fun v => [str v])) = 0 :=
    remarksOf_bracketed (by simp)
  simp [EnumDecl.layout, hnames, hvalues]

theorem ActionDecl.Writable.remarksOf_layout {d : ActionDecl} (h : d.Writable) :
    remarksOf (d.layout depth) = (Decl.action d).innerComments := by
  have hnames : remarksOf (commas (d.names.map fun n => [Piece.name n])) = 0 :=
    remarksOf_commas (by simp)
  have hparents : remarksOf (if d.parents.isEmpty then []
      else [space, ident "in", space] ++ bracketed (d.parents.map ActionRef.layout)) = 0 := by
    split
    · rfl
    · simp [remarksOf_bracketed]
  have happliesTo (a : AppliesTo) (ha : d.appliesTo = some a) :
      remarksOf (a.layout depth) = a.allComments := (h.appliesTo a ha).remarksOf_layout
  rw [ActionDecl.layout, remarksOf_append, remarksOf_append, hparents]
  cases ha : d.appliesTo <;> simp_all [Decl.innerComments]

theorem CommonTypeDecl.Writable.remarksOf_layout {d : CommonTypeDecl} (h : d.Writable) :
    remarksOf (d.layout depth) = (Decl.commonType d).innerComments := by
  have htype := TypeExpr.Writable.remarksOf_layout depth d.type h.type
  simp [CommonTypeDecl.layout, Decl.innerComments, htype]

theorem Decl.Writable.remarksOf_layout {d : Decl} (h : d.Writable) :
    remarksOf (d.layout depth) = d.allComments := by
  have hbody := h.body
  have hcomments := h.comments.all_eq
  simp only [Decl.layout, remarksOf_append, remarksOf_cons, remarksOf_preamble, remarks_indent,
    remarks_punct, remarksOf_lineEnd, zero_add, Decl.allComments, hcomments]
  cases d with
  | entity d =>
    rw [EntityDecl.Writable.remarksOf_layout hbody]
    abel
  | enum d =>
    rw [d.remarksOf_layout, Decl.innerComments]
    abel
  | action d =>
    rw [ActionDecl.Writable.remarksOf_layout hbody]
    abel
  | commonType d =>
    rw [CommonTypeDecl.Writable.remarksOf_layout hbody]
    abel

/-! ## Files -/

theorem NamespaceBlock.Writable.remarksOf_layout {b : NamespaceBlock} (h : b.Writable) :
    remarksOf b.layout = b.allComments := by
  have hdecls : ((b.decls.map (Decl.layout 1)).map remarksOf).sum =
      (b.decls.map Decl.allComments).sum := by
    rw [List.map_map]
    exact congrArg List.sum (List.map_congr_left fun d hd => (h.decls d hd).remarksOf_layout)
  have hnewline : remarksOf [newline] = 0 := by simp
  simp only [NamespaceBlock.layout, remarksOf_append, remarksOf_cons, remarksOf_preamble,
    remarks_ident, remarks_space, Path.remarksOf_layout, remarksOf_braced, remarksOf_commentLines,
    remarksOf_lineEnd, remarksOf_separated hnewline, hdecls, zero_add,
    NamespaceBlock.allComments, Comments.all]
  abel

/-- A writable schema is laid out with its comments, each as often as it has it. -/
theorem Schema.Writable.remarksOf_layout {s : Schema} (h : s.Writable) :
    remarksOf s.layout = s.allComments := by
  have hitem (i : Item) (hi : i ∈ s.items) : remarksOf i.layout = i.allComments := by
    have hw := h.items i hi
    cases i with
    | block b => exact NamespaceBlock.Writable.remarksOf_layout hw
    | decl d => exact Decl.Writable.remarksOf_layout hw
  have hitems : ((s.items.map Item.layout).map remarksOf).sum =
      (s.items.map Item.allComments).sum := by
    rw [List.map_map]
    exact congrArg List.sum (List.map_congr_left hitem)
  have hremaining : remarksOf (if s.remaining.isEmpty then []
      else (if s.items.isEmpty then [] else [newline]) ++ commentLines 0 s.remaining) =
        (s.remaining : Multiset String) := by
    split
    · rename_i h
      rw [List.isEmpty_iff.1 h]
      rfl
    · split <;> simp
  rw [Schema.layout, remarksOf_append, remarksOf_separated (by simp), hitems, hremaining,
    Schema.allComments]

end

/-! ## Lines of comments -/

namespace Piece

/-- Blanks and comments, which can stand between the other lexemes of a layout. -/
def isFiller : Piece → Bool
  | lexeme (.comment _) => true
  | lexeme _ => false
  | _ => true

/-- Every comment of a layout begins less than `2 ^ 32` lines below the lexeme before it that is no
comment. -/
def LinesFit (ps : List Piece) : Prop :=
  ∀ gap text, gap ++ [comment text] <:+: ps → (∀ p ∈ gap, p.isFiller = true) →
    (textOf gap).toList.count '\n' < 2 ^ 32

section

variable {ps qs : List Piece}

theorem LinesFit.of_infix (h : LinesFit qs) (hps : ps <:+: qs) : LinesFit ps :=
  fun gap text hgap => h gap text (hgap.trans hps)

theorem LinesFit.tail {p : Piece} (h : LinesFit (p :: ps)) : LinesFit ps :=
  h.of_infix (List.suffix_cons p ps).isInfix

theorem LinesFit.append_right (h : LinesFit (qs ++ ps)) : LinesFit ps :=
  h.of_infix (List.suffix_append qs ps).isInfix

/-- An indentation begins no line. -/
theorem LinesFit.indent {depth : Nat} (h : LinesFit ps) : LinesFit (indent depth :: ps) := by
  intro gap text hgap hfiller
  rcases List.infix_cons_iff.1 hgap with hfront | hgap
  · cases gap with
    | nil => cases (List.cons_prefix_cons.1 hfront).1
    | cons p gap =>
      obtain ⟨rfl, hinner⟩ := List.cons_prefix_cons.1 hfront
      have hcount := h gap text hinner.isInfix (List.forall_mem_cons.1 hfiller).2
      rw [textOf_cons, String.toList_append, List.count_append]
      simpa [Piece.text, List.count_replicate] using hcount
  · exact h gap text hgap hfiller

/-- Where there is no comment, any number of lines is. -/
theorem linesFit_of_remarksOf (h : remarksOf ps = 0) : LinesFit ps := by
  rintro gap text ⟨front, behind, rfl⟩ -
  simp at h

end

end Piece

namespace Schema

variable {s : Schema}

/-- Every comment of the canonical text begins less than `2 ^ 32` lines below the token before
it. -/
def LinesFit (s : Schema) : Prop := Piece.LinesFit s.layout

theorem Writable.linesFit (h : s.Writable) (hcomments : s.allComments = 0) : s.LinesFit :=
  linesFit_of_remarksOf (h.remarksOf_layout.trans hcomments)

end Schema

end CedarSchema
