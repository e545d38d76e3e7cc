import CedarSchema.Parse.Lookahead
import CedarSchema.Schema

/-
  The parts of declarations that hold no types: paths, lists of names, bracketed lists, references
  to actions, and annotations. Each reading carries on the fact that the state has come nearer to
  the end since its own beginning.
-/

namespace CedarSchema

open ParseState

/-! ## Paths and lists -/

/-- What follows the first segment of a path: further segments, each behind a double colon. -/
def pathTail (s₀ : ParseState) : Except ParseError (Reading (s₀.left + 1) (List String)) := do
  match ← s₀.eat .doubleColon with
  | none => return ⟨[], s₀, s₀.left_lt_succ_self⟩
  | some ⟨_, s, h⟩ =>
    let ⟨segment, s, h⟩ ← Reading.below h <$> s.ident
    let ⟨segments, s, h⟩ ← Reading.upTo h <$> pathTail s
    return ⟨segment :: segments, s, left_lt_succ h⟩
termination_by s₀.left
decreasing_by exact h

/-- One or more segments with double colons between them. -/
def Path.read (s₀ : ParseState) : Except ParseError (Reading s₀.left Path) := do
  let ⟨segment, s, h⟩ ← s₀.ident
  let ⟨segments, s, h⟩ ← Reading.upTo h <$> pathTail s
  return ⟨⟨segment :: segments⟩, s, h⟩

/-- The items of a list behind its opening bracket, through the closing one. A comma may stand
behind the last item. -/
def bracketTail {α : Type} (item : (s : ParseState) → Except ParseError (Reading s.left α))
    (s₀ : ParseState) : Except ParseError (Reading s₀.left (List α)) := do
  match ← s₀.eat .rightBracket with
  | some r => return r.map fun _ => []
  | none =>
    let ⟨x, s, h⟩ ← item s₀
    match ← s.eat .comma with
    | some ⟨_, s, h'⟩ =>
      have h := left_trans h' h
      let ⟨xs, s, h⟩ ← Reading.below h <$> bracketTail item s
      return ⟨x :: xs, s, h⟩
    | none =>
      let ⟨_, s, h⟩ ← Reading.below h <$>
        s.expectFor [.punct .comma, .punct .rightBracket] .rightBracket
      return ⟨[x], s, h⟩
termination_by s₀.left
decreasing_by exact h

/-- A list in brackets, or one item without brackets. -/
def oneOrBracketed {α : Type} (item : (s : ParseState) → Except ParseError (Reading s.left α))
    (s₀ : ParseState) : Except ParseError (Reading s₀.left (List α)) := do
  match ← s₀.eat .leftBracket with
  | some ⟨_, s, h⟩ => Reading.below h <$> bracketTail item s
  | none => Reading.map (fun x => [x]) <$> item s₀

/-- One or more items with commas between them. -/
def commaSeparated {α : Type} (item : (s : ParseState) → Except ParseError (Reading s.left α))
    (s₀ : ParseState) : Except ParseError (Reading s₀.left (List α)) := do
  let ⟨x, s, h⟩ ← item s₀
  match ← s.eat .comma with
  | some ⟨_, s, h'⟩ =>
    have h := left_trans h' h
    let ⟨xs, s, h⟩ ← Reading.below h <$> commaSeparated item s
    return ⟨x :: xs, s, h⟩
  | none => return ⟨[x], s, h⟩
termination_by s₀.left
decreasing_by exact h

/-- One path, or paths in brackets. -/
def pathRefs (s : ParseState) : Except ParseError (Reading s.left (List Path)) :=
  oneOrBracketed Path.read s

/-- String literals in brackets, possibly none. -/
def stringList (s₀ : ParseState) : Except ParseError (Reading s₀.left (List String)) := do
  let ⟨_, s, h⟩ ← s₀.expect .leftBracket
  Reading.below h <$> bracketTail stringLiteral s

/-! ## References to actions -/

/-- What follows the segments `segments` of an action reference that starts at `start`: the quoted
id of an action of that type, or further segments. A single segment without an id is itself the id
of an action. -/
def actionRefTail (start : Position) (segments : List String) (s₀ : ParseState) :
    Except ParseError (Reading (s₀.left + 1) ActionRef) := do
  match ← s₀.eat .doubleColon with
  | some ⟨_, s, h⟩ =>
    match s.lookahead with
    | .str _ =>
      let ⟨id, s, h⟩ ← Reading.below h <$> s.stringLiteral
      return ⟨⟨some ⟨segments⟩, id⟩, s, left_lt_succ h⟩
    | .ident _ =>
      let ⟨segment, s, h⟩ ← Reading.below h <$> s.ident
      let ⟨ref, s, h⟩ ← Reading.upTo h <$> actionRefTail start (segments ++ [segment]) s
      return ⟨ref, s, left_lt_succ h⟩
    | _ => throw (s.unexpected [.identifier, .stringLiteral])
  | none =>
    match segments with
    | [id] => return ⟨⟨none, id⟩, s₀, s₀.left_lt_succ_self⟩
    | _ => throw ⟨start, .grammatical (.missingActionId ⟨segments⟩)⟩
termination_by s₀.left
decreasing_by exact h

/-- A reference to an action: an id, bare or quoted, or a type and a quoted id. -/
def ActionRef.read (s₀ : ParseState) : Except ParseError (Reading s₀.left ActionRef) := do
  match s₀.lookahead with
  | .str _ => Reading.map (ActionRef.mk none) <$> s₀.stringLiteral
  | _ =>
    let ⟨segment, s, h⟩ ← s₀.ident
    Reading.upTo h <$> actionRefTail s₀.here [segment] s

/-! ## Annotations -/

/-- The value of an annotation, in parentheses. -/
def annotationValue (s₀ : ParseState) : Except ParseError (Reading s₀.left String) := do
  let ⟨_, s, h⟩ ← s₀.expect .leftParen
  let ⟨value, s, h⟩ ← Reading.below h <$> s.stringLiteral
  let ⟨_, s, h⟩ ← Reading.below h <$> s.expect .rightParen
  return ⟨value, s, h⟩

/-- Annotations, none of which may bear a key of `keys` or of one before it. -/
def annotationList (keys : List String) (s₀ : ParseState) :
    Except ParseError (Reading (s₀.left + 1) (List Annotation)) := do
  match ← s₀.eat .atSign with
  | none => return ⟨[], s₀, s₀.left_lt_succ_self⟩
  | some ⟨_, s, h⟩ =>
    let start := s.here
    let ⟨key, s, h⟩ ← Reading.below h <$> s.ident
    if keys.contains key then throw ⟨start, .grammatical (.duplicateAnnotationKey key)⟩
    let ⟨value, s, h⟩ ← Reading.upTo h <$> s.optional [.punct .leftParen] annotationValue
    let ⟨rest, s, h⟩ ← Reading.upTo h <$> annotationList (key :: keys) s
    return ⟨⟨key, value⟩ :: rest, s, left_lt_succ h⟩
termination_by s₀.left
decreasing_by exact h

/-- What may stand before a node: comments, and annotations with comments around them. -/
structure Preamble where
  before : List String
  annotations : List Annotation

/-- Takes the comments pending before a node, its annotations, and the comments read with them. -/
def Preamble.read (s₀ : ParseState) : Except ParseError (Reading (s₀.left + 1) Preamble) := do
  let ⟨annotations, s, h⟩ ← annotationList [] s₀.takePending
  return ⟨⟨s₀.pendingTexts ++ s.pendingTexts, annotations⟩, s.takePending, h⟩

/-- The comments of a node that ends at the last token read, with `before` in front of it. -/
def nodeComments (before : List String) (s : ParseState) : Comments :=
  { before, inline := s.inlineText }

end CedarSchema
