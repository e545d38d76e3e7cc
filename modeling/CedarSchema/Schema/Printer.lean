import CedarSchema.Schema
import CedarSchema.Token
import CedarSchema.Text.Identifier

/-
  The canonical text of a schema: two blanks of indentation, a blank line between declarations,
  each annotation and each attribute on a line of its own, a comma behind every attribute, and
  every comment where it belongs. A schema is first laid out as lexemes with the blanks between
  them, so that its tokens can be read off the layout.
-/

namespace CedarSchema

/-! ## Layout -/

/-- A lexeme, or blanks that separate lexemes. -/
inductive Piece
  | lexeme (l : Lexeme)
  | space
  | newline
  | indent (depth : Nat)
  deriving DecidableEq, Repr

namespace Piece

/-- A piece as it stands in text; indentation is two blanks for each level. -/
def text : Piece → String
  | lexeme l => l.source
  | space => " "
  | newline => "\n"
  | indent depth => String.ofList (List.replicate (2 * depth) ' ')

/-- A name as it is. -/
def ident (name : String) : Piece := .lexeme (.ident name)

/-- A text as a string literal. -/
def str (value : String) : Piece := .lexeme (.str value)

/-- A punctuation mark. -/
def punct (p : Punct) : Piece := .lexeme (.punct p)

/-- A comment with its delimiters. -/
def comment (text : String) : Piece := .lexeme (.comment text)

/-- A name bare if it is an identifier, quoted otherwise. -/
def name (s : String) : Piece := if Text.isIdent s then ident s else str s

/-- The text of a layout. -/
def textOf (ps : List Piece) : String := ps.foldl (fun s p => s ++ p.text) ""

theorem foldl_text (ps : List Piece) (s : String) :
    ps.foldl (fun s p => s ++ p.text) s = s ++ textOf ps := by
  induction ps generalizing s with
  | nil => simp [textOf]
  | cons p ps ih =>
    simp only [textOf, List.foldl_cons]
    rw [ih, ih ("" ++ p.text), String.empty_append, String.append_assoc]

theorem textOf_nil : textOf [] = "" := rfl

theorem textOf_cons (p : Piece) (ps : List Piece) : textOf (p :: ps) = p.text ++ textOf ps := by
  rw [textOf, List.foldl_cons, foldl_text, String.empty_append]

/-- The items with `sep` between neighbours. -/
def separated (sep : List Piece) : List (List Piece) → List Piece
  | [] => []
  | [item] => item
  | item :: rest => item ++ sep ++ separated sep rest

/-- The items with a comma and a space between neighbours. -/
def commas (items : List (List Piece)) : List Piece := separated [punct .comma, space] items

/-- The items in square brackets. -/
def bracketed (items : List (List Piece)) : List Piece :=
  punct .leftBracket :: (commas items ++ [punct .rightBracket])

/-- Each comment on a line of its own. -/
def commentLines (depth : Nat) (comments : List String) : List Piece :=
  comments.flatMap fun c => [indent depth, comment c, newline]

/-- The end of a line, behind the comment that stands on it if there is one. -/
def lineEnd (comments : Comments) : List Piece :=
  match comments.inline with
  | some c => [space, comment c, newline]
  | none => [newline]

end Piece

open Piece

/-! ## Names and references -/

/-- An annotation without the end of its line. -/
def Annotation.layout (a : Annotation) : List Piece :=
  punct .atSign :: ident a.key ::
    match a.value with
    | some v => [punct .leftParen, str v, punct .rightParen]
    | none => []

/-- Leading comments, then annotations, each on a line of its own. -/
def preamble (depth : Nat) (comments : Comments) (annotations : List Annotation) : List Piece :=
  commentLines depth comments.before ++
    annotations.flatMap fun a => indent depth :: (a.layout ++ [newline])

/-- The segments of a path as they are, whether or not they are identifiers. -/
def Path.layout (p : Path) : List Piece :=
  separated [punct .doubleColon] (p.segments.map fun s => [ident s])

/-- A reference to an action; an id alone is bare where it can be. -/
def ActionRef.layout (r : ActionRef) : List Piece :=
  match r.type with
  | some p => p.layout ++ [punct .doubleColon, str r.id]
  | none => [name r.id]

/-- Paths in brackets, a single one too. -/
def pathList (paths : List Path) : List Piece := bracketed (paths.map Path.layout)

/-! ## Types -/

/-- Behind the name of an attribute that may be absent stands a question mark. -/
def presenceMark (required : Bool) : List Piece := if required then [] else [punct .question]

/-- Inner lines in braces on lines of their own; without inner lines, the bare braces. -/
def braced (depth : Nat) (inner : List Piece) : List Piece :=
  if inner.isEmpty then [punct .leftBrace, punct .rightBrace]
  else punct .leftBrace :: newline :: (inner ++ [indent depth, punct .rightBrace])

mutual

/-- A type whose first line has the indentation `depth`. -/
def TypeExpr.layout (depth : Nat) : TypeExpr → List Piece
  | .path p => p.layout
  | .entity p => p.layout
  | .set element =>
    ident "Set" :: punct .leftAngle :: (element.layout depth ++ [punct .rightAngle])
  | .record r => Record.layout depth r
termination_by structural t => t

/-- A record type whose first line has the indentation `depth`. -/
def Record.layout (depth : Nat) : Record TypeExpr → List Piece
  | ⟨attributes, comments⟩ =>
    braced depth (attributeLines (depth + 1) attributes ++
      commentLines (depth + 1) comments.remaining)
termination_by structural r => r

/-- The lines of the attributes of a record, at the indentation `depth`. -/
def attributeLines (depth : Nat) : List (Attribute TypeExpr) → List Piece
  | [] => []
  | ⟨n, type, required, annotations, comments⟩ :: rest =>
    preamble depth comments annotations ++
      (indent depth :: name n :: (presenceMark required ++
        punct .colon :: space :: (type.layout depth ++
          punct .comma :: (lineEnd comments ++ attributeLines depth rest))))
termination_by structural attributes => attributes

end

/-! ## Declarations -/

/-- An entity type up to its semicolon; an empty list of parents is left out. -/
def EntityDecl.layout (depth : Nat) (d : EntityDecl) : List Piece :=
  ident "entity" :: space :: commas (d.names.map fun n => [ident n]) ++
    (if d.parents.isEmpty then [] else [space, ident "in", space] ++ pathList d.parents) ++
    (match d.shape with
      | some r => space :: r.layout depth
      | none => []) ++
    (match d.tags with
      | some t => [space, ident "tags", space] ++ t.layout depth
      | none => [])

/-- An enumerated entity type up to its semicolon. -/
def EnumDecl.layout (d : EnumDecl) : List Piece :=
  ident "entity" :: space :: commas (d.names.map fun n => [ident n]) ++
    [space, ident "enum", space] ++ bracketed (d.values.map fun v => [str v])

/-- One member of an appliesTo clause, on a line of its own. -/
def clauseLine (depth : Nat) (word : String) (value : List Piece) : List Piece :=
  indent depth :: ident word :: punct .colon :: space :: (value ++ [punct .comma, newline])

/-- An appliesTo clause behind its word. -/
def AppliesTo.layout (depth : Nat) (a : AppliesTo) : List Piece :=
  braced depth
    ((match a.principals with
      | some ps => clauseLine (depth + 1) "principal" (pathList ps)
      | none => []) ++
    (match a.resources with
      | some rs => clauseLine (depth + 1) "resource" (pathList rs)
      | none => []) ++
    (match a.context with
      | some t => clauseLine (depth + 1) "context" (t.layout (depth + 1))
      | none => []) ++
    commentLines (depth + 1) a.comments.remaining)

/-- An action up to its semicolon; an empty list of parents is left out. -/
def ActionDecl.layout (depth : Nat) (d : ActionDecl) : List Piece :=
  ident "action" :: space :: commas (d.names.map fun n => [name n]) ++
    (if d.parents.isEmpty then []
      else [space, ident "in", space] ++ bracketed (d.parents.map ActionRef.layout)) ++
    (match d.appliesTo with
      | some a => [space, ident "appliesTo", space] ++ a.layout depth
      | none => [])

/-- A common type up to its semicolon. -/
def CommonTypeDecl.layout (depth : Nat) (d : CommonTypeDecl) : List Piece :=
  ident "type" :: space :: ident d.name :: space :: punct .equals :: space :: d.type.layout depth

/-- A declaration on lines of its own, at the indentation `depth`. -/
def Decl.layout (depth : Nat) (d : Decl) : List Piece :=
  preamble depth d.comments d.annotations ++
    indent depth ::
      ((match d with
        | .entity e => e.layout depth
        | .enum e => e.layout
        | .action a => a.layout depth
        | .commonType t => t.layout depth) ++
      punct .semicolon :: lineEnd d.comments)

/-! ## Files -/

/-- A namespace block, with a blank line between its declarations. -/
def NamespaceBlock.layout (b : NamespaceBlock) : List Piece :=
  preamble 0 b.comments b.annotations ++
    ident "namespace" :: space :: (b.path.layout ++
      space :: (braced 0 (separated [newline] (b.decls.map (Decl.layout 1)) ++
        commentLines 1 b.comments.remaining) ++ lineEnd b.comments))

/-- An item on lines of its own. -/
def Item.layout : Item → List Piece
  | block b => b.layout
  | decl d => d.layout 0

/-- The items with blank lines between them, and the comments behind the last. -/
def Schema.layout (s : Schema) : List Piece :=
  separated [newline] (s.items.map Item.layout) ++
    (if s.remaining.isEmpty then []
      else (if s.items.isEmpty then [] else [newline]) ++ commentLines 0 s.remaining)

/-- The canonical text of a schema. -/
def Schema.format (s : Schema) : String := Piece.textOf s.layout

end CedarSchema
