import CedarSchema.Position
import CedarSchema.Text.Quoted

/-
  The tokens of the schema language. Words such as entity or appliesTo are plain identifiers, which
  the grammar tells apart by where they stand; comments are tokens so that a tree can keep them.
-/

namespace CedarSchema

/-- The punctuation marks; two colons are a mark of their own. -/
inductive Punct
  | leftBrace | rightBrace | leftBracket | rightBracket | leftParen | rightParen
  | leftAngle | rightAngle | comma | semicolon | colon | doubleColon | equals | question | atSign
  deriving DecidableEq, Repr

/-- The characters of a mark. -/
def Punct.chars : Punct → List Char
  | leftBrace => ['{']
  | rightBrace => ['}']
  | leftBracket => ['[']
  | rightBracket => [']']
  | leftParen => ['(']
  | rightParen => [')']
  | leftAngle => ['<']
  | rightAngle => ['>']
  | comma => [',']
  | semicolon => [';']
  | colon => [':']
  | doubleColon => [':', ':']
  | equals => ['=']
  | question => ['?']
  | atSign => ['@']

/-- The characters of a mark, as a text. -/
def Punct.text (p : Punct) : String := String.ofList p.chars

/-- What a token says. A string literal is kept as the text it stands for, a comment with its
delimiters. -/
inductive Lexeme
  | ident (name : String)
  | str (value : String)
  | comment (text : String)
  | punct (p : Punct)
  | eof
  deriving DecidableEq, Repr

namespace Lexeme

/-- What a lexeme says, without the quotes and escapes of a literal. -/
def text : Lexeme → String
  | ident name => name
  | str value => value
  | comment text => text
  | punct p => p.text
  | eof => ""

/-- The lexeme as it stands in source text. -/
def source : Lexeme → String
  | str value => Text.quote value
  | l => l.text

/-- The lexeme as messages name it. -/
def shown : Lexeme → String
  | ident name => "identifier '" ++ name ++ "'"
  | str value => "string " ++ Text.quote value
  | comment _ => "comment"
  | punct p => "'" ++ p.text ++ "'"
  | eof => "end of file"

end Lexeme

/-- A lexeme with the place of its first character and the place behind its last. -/
structure Token where
  lexeme : Lexeme
  start : Position
  stop : Position
  deriving DecidableEq, Repr

end CedarSchema
