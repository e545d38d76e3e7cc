import CedarSchema.Text.Separated

/-
  Why a JSON document is no schema. A fault of its shape stands at a location: the keys and
  positions that lead to it from the root.
-/

namespace CedarSchema

/-- What is wrong with a JSON value that stands where a part of a schema is expected. -/
inductive ShapeFault
  | notAnObject | notAnArray | notAString
  | unknownNamespaceField
  | unknownField
  | missingType
  | missingId
  /-- A type whose tag asks for a name has none. -/
  | missingName (tag : String)
  | missingElement
  | shapeNotARecord
  | requiredNotABoolean
  | emptyEnum
  /-- The root namespace has no block that could carry annotations. -/
  | annotatedRoot
  deriving DecidableEq, Repr

/-- The fault in words, without its location. -/
def ShapeFault.message : ShapeFault → String
  | notAnObject => "expected an object"
  | notAnArray => "expected an array"
  | notAString => "expected a string"
  | unknownNamespaceField => "unknown namespace field"
  | unknownField => "unknown field"
  | missingType => "missing 'type'"
  | missingId => "missing 'id'"
  | missingName tag => "'" ++ tag ++ "' type needs a 'name'"
  | missingElement => "'Set' type needs an 'element'"
  | shapeNotARecord => "entity shape must be a record"
  | requiredNotABoolean => "'required' must be a boolean"
  | emptyEnum => "enum must declare at least one value"
  | annotatedRoot => "the root namespace cannot carry annotations"

/-- A fault and the keys and positions that lead to it. -/
structure ShapeError where
  location : List String
  fault : ShapeFault
  deriving DecidableEq, Repr

namespace ShapeError

/-- The same fault, seen from outside of the value under a key. -/
def under (key : String) (e : ShapeError) : ShapeError := ⟨key :: e.location, e.fault⟩

/-- The fault in words, behind its location with slashes in it. -/
def message (e : ShapeError) : String := Text.join "/" e.location ++ ": " ++ e.fault.message

end ShapeError

/-- Why a file holds no document of a schema. -/
inductive DocumentError
  | notJson
  | misshapen (e : ShapeError)
  /-- The bytes from `offset` on begin no character. -/
  | notUtf8 (offset : Nat)
  deriving DecidableEq, Repr

/-- The failure in words; all texts that are not JSON fail in the same words. -/
def DocumentError.message : DocumentError → String
  | notJson => "invalid JSON"
  | misshapen e => e.message
  | notUtf8 offset => "invalid UTF-8 at byte " ++ toString offset

end CedarSchema
