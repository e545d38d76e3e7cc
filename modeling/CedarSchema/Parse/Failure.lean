import CedarSchema.Path
import CedarSchema.Token.Lexer

/-
  Why a text is no schema. A failure is a cause at a position; the wording of each cause is in one
  place and is never inspected.
-/

namespace CedarSchema

/-- What could have stood where a token stands. -/
inductive Wanted
  | punct (p : Punct)
  | word (w : String)
  | identifier
  | stringLiteral
  | type
  | attributeName
  /-- Inside a namespace block: another declaration or its end. -/
  | declarationOrEnd
  /-- Behind the opening brace of an attributes clause, which has to be empty. -/
  | emptyClauseEnd
  deriving DecidableEq, Repr

/-- An alternative as messages name it. -/
def Wanted.text : Wanted → String
  | punct p => "'" ++ p.text ++ "'"
  | word w => "'" ++ w ++ "'"
  | identifier => "identifier"
  | stringLiteral => "string literal"
  | type => "type"
  | attributeName => "attribute name"
  | declarationOrEnd => "declaration or '\x7d'"
  | emptyClauseEnd => "'\x7d' (the 'attributes' clause must be empty)"

/-- Alternatives as a phrase: `a`, `a or b`, `a, b, or c`. -/
def phrase : List String → String
  | [] => "more input"
  | [a] => a
  | [a, b] => a ++ " or " ++ b
  | options => Text.join ", " options.dropLast ++ ", or " ++ options.getLast?.getD ""

/-- Why tokens spell no schema. -/
inductive SyntaxError
  | expected (wanted : List Wanted) (found : Lexeme)
  | emptyEnum
  | duplicateAttribute (name : String)
  | duplicateAnnotationKey (key : String)
  | duplicateMember (word : String)
  | reservedTypeName (name : String)
  /-- An action reference that names a type and no action. -/
  | missingActionId (type : Path)
  deriving DecidableEq, Repr

/-- The cause in words, without its position. -/
def SyntaxError.message : SyntaxError → String
  | expected wanted found =>
    "expected " ++ phrase (wanted.map Wanted.text) ++ ", found " ++ found.shown
  | emptyEnum => "enum must declare at least one value"
  | duplicateAttribute name => "duplicate attribute '" ++ name ++ "'"
  | duplicateAnnotationKey key => "duplicate annotation '@" ++ key ++ "'"
  | duplicateMember word => "duplicate '" ++ word ++ "' in appliesTo"
  | reservedTypeName name => "'" ++ name ++ "' is a reserved type name and cannot be redeclared"
  | missingActionId type => "expected '::' and a quoted action id after '" ++ type.text ++ "'"

/-- A cause that lies in a token or in how tokens stand together. -/
inductive ParseFault
  | lexical (e : LexError)
  | grammatical (e : SyntaxError)
  deriving DecidableEq, Repr

/-- The cause in words, without its position. -/
def ParseFault.message : ParseFault → String
  | lexical e => e.message
  | grammatical e => e.message

/-- The first failure of a text and the place where it is found. -/
structure ParseError where
  pos : Position
  fault : ParseFault
  deriving DecidableEq, Repr

end CedarSchema
