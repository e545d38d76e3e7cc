import CedarSchema.Dict
import CedarSchema.Schema

/-
  Types with nothing left to look up: every common type is replaced by what it stands for, and
  every entity type is named in full.
-/

namespace CedarSchema

/-- The value of each annotation under its key, empty for a bare one; of equal keys the last
counts. -/
def annotationDict (annotations : List Annotation) : Dict String String :=
  .ofList (annotations.map fun a => (a.key, a.value.getD ""))

/-- Built-in types that are referred to by name only. -/
inductive ExtensionType
  | ipaddr | decimal | datetime | duration
  deriving DecidableEq, Repr

/-- The name of a built-in type as it is written. -/
def ExtensionType.name : ExtensionType → String
  | ipaddr => "ipaddr"
  | decimal => "decimal"
  | datetime => "datetime"
  | duration => "duration"

/-- What a record says of one attribute. -/
structure Field (τ : Type) where
  type : τ
  required : Bool
  annotations : Dict String String

/-- A type in which every name is that of an entity type, in full. -/
inductive ResolvedType
  | bool
  | long
  | string
  | extension (e : ExtensionType)
  | set (element : ResolvedType)
  /-- Fields in ascending order of their names. -/
  | record (fields : List (String × Field ResolvedType))
  | entity (name : String)

/-- The fields of a record, in ascending order of their names. -/
abbrev Fields := List (String × Field ResolvedType)

namespace ResolvedType

/-- A short description for messages. -/
def describe : ResolvedType → String
  | bool => "Bool"
  | long => "Long"
  | string => "String"
  | extension e => e.name
  | set element => "Set<" ++ element.describe ++ ">"
  | record _ => "record"
  | entity name => "entity type " ++ name

end ResolvedType

/-- The built-in type of a name. -/
def builtinType : String → Option ResolvedType
  | "Bool" => some .bool
  | "Boolean" => some .bool
  | "Long" => some .long
  | "String" => some .string
  | "ipaddr" => some (.extension .ipaddr)
  | "decimal" => some (.extension .decimal)
  | "datetime" => some (.extension .datetime)
  | "duration" => some (.extension .duration)
  | _ => none

end CedarSchema
