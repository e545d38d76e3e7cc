import CedarSchema.Text.Separated

/-
  Names made of segments with double colons between them, such as PhotoApp::Accounts::User.
-/

namespace CedarSchema

/-- A name by its segments. Paths that are read from schema text have at least one. -/
structure Path where
  segments : List String
  deriving DecidableEq, Repr

namespace Path

/-- The path that a text spells: one segment more than it has double colons. -/
def ofText (text : String) : Path := ⟨(Text.splitDoubleColons text.toList).map String.ofList⟩

/-- The segments with double colons between them. -/
def text (p : Path) : String := Text.join "::" p.segments

/-- A path of two or more segments names its namespace. -/
def isQualified (p : Path) : Bool := 1 < p.segments.length

/-- The last segment. -/
def basename (p : Path) : String := p.segments.getLast?.getD ""

/-- All segments but the last, joined. -/
def namespaceText (p : Path) : String := Text.join "::" p.segments.dropLast

end Path

/-- The full name of `name` in a namespace; the root namespace is the empty text. -/
def qualify (ns name : String) : String := if ns = "" then name else ns ++ "::" ++ name

/-- Names that no common type may bear. -/
def reservedTypeNames : List String :=
  ["Bool", "Boolean", "Entity", "Extension", "Long", "Record", "Set", "String"]

/-- The first segment of names that name built-in types only. -/
def builtinNamespace : String := "__cedar"

/-- Whether no common type may bear the name. -/
def isReservedTypeName (name : String) : Bool := reservedTypeNames.contains name

end CedarSchema
