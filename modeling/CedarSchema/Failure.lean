import CedarSchema.Document.Error
import CedarSchema.Json.Basic
import CedarSchema.Parse.Failure
import CedarSchema.Resolve.Error

/-
  Everything that can go wrong with a file, as it is reported: with a kind, a message and, where
  the text of a schema is at fault, a position.
-/

namespace CedarSchema

/-! ## Kinds -/

/-- The kind under which a cause is reported. -/
def ParseFault.kind : ParseFault → String
  | lexical _ => "LexError"
  | grammatical _ => "SyntaxError"

/-- The kind under which a failure is reported. -/
def ResolveError.kind : ResolveError → String
  | undefinedType .. => "UndefinedType"
  | undefinedBuiltin .. => "UndefinedBuiltin"
  | commonTypeCycle .. => "CommonTypeCycle"
  | actionCycle .. => "ActionCycle"
  | invalidContext .. => "InvalidContext"
  | duplicate .. => "DuplicateDeclaration"
  | undefinedAction .. => "UndefinedAction"
  | reservedName .. => "ReservedName"

/-- A failure of any stage. -/
inductive SchemaError
  /-- The file cannot be read, for the given reason. -/
  | unreadable (reason : String)
  | parse (e : ParseError)
  | resolve (e : ResolveError)
  | document (e : DocumentError)

namespace SchemaError

/-- The kind under which a failure is reported. -/
def kind : SchemaError → String
  | unreadable _ => "IoError"
  | parse e => e.fault.kind
  | resolve e => e.kind
  | document _ => "JsonError"

/-! ## Messages -/

/-- The message on `file`, without a position. -/
def message (file : String) : SchemaError → String
  | unreadable reason => "cannot read " ++ file ++ ": " ++ reason
  | parse e => e.fault.message
  | resolve e => e.message
  | document e => e.message

/-- Where in the text of the file the fault is. -/
def position? : SchemaError → Option Position
  | parse e => some e.pos
  | _ => none

/-- The message on `file`, behind the position if there is one. -/
def text (file : String) (e : SchemaError) : String :=
  match e.position? with
  | some pos =>
    file ++ ":" ++ toString pos.line ++ ":" ++ toString pos.column ++ ": " ++ e.message file
  | none => e.message file

/-- The report for machines. What the fault has not is null. -/
def toJson (file : String) (e : SchemaError) : Json :=
  let known (f : Position → Json) : Json := (e.position?.map f).getD .null
  .ofMembers [
    ("column", known fun pos => .ofNat pos.column),
    ("file", known fun _ => .string file),
    ("kind", .string e.kind),
    ("line", known fun pos => .ofNat pos.line),
    ("message", .string (e.message file))]

end SchemaError

end CedarSchema
