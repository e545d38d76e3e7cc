import CedarSchema.EntityUid
import CedarSchema.Resolved.Type

/-
  Why a schema cannot be resolved. Failures have no position; each names what is at fault.
-/

namespace CedarSchema

/-- What two declarations of one name declare. -/
inductive DeclKind
  | entityType | commonType | action | field
  deriving DecidableEq, Repr

/-- The kind as messages name it. -/
def DeclKind.text : DeclKind → String
  | entityType => "entity type"
  | commonType => "common type"
  | action => "action"
  | field => "attribute"

/-- Why a schema has no meaning. -/
inductive ResolveError
  /-- A reference in the namespace `ns` to something that is not declared. -/
  | undefinedType (name ns : String)
  | undefinedBuiltin (name : String)
  /-- Common types each of which refers to the next; the first is also the last. -/
  | commonTypeCycle (cycle : List String)
  /-- Actions each of which is a member of the next; the first is also the last. -/
  | actionCycle (cycle : List EntityUid)
  | invalidContext (action : EntityUid) (found : ResolvedType)
  | duplicate (kind : DeclKind) (name : String)
  | undefinedAction (action parent : EntityUid)
  | reservedName (name : String)

/-- The failure in words. -/
def ResolveError.message : ResolveError → String
  | undefinedType name ns =>
    "undefined type '" ++ name ++ "' (referenced in namespace '" ++ ns ++ "')"
  | undefinedBuiltin name => "undefined built-in type '__cedar::" ++ name ++ "'"
  | commonTypeCycle cycle => "common type cycle detected: " ++ Text.join " -> " cycle
  | actionCycle cycle =>
    "action cycle detected: " ++ Text.join " -> " (cycle.map EntityUid.text)
  | invalidContext action found =>
    "context of action " ++ action.text ++ " must be a record type, found " ++ found.describe
  | duplicate kind name => "duplicate " ++ kind.text ++ " '" ++ name ++ "'"
  | undefinedAction action parent =>
    "action " ++ action.text ++ " is a member of undefined action " ++ parent.text
  | reservedName name =>
    "'" ++ name ++ "' is a reserved type name and cannot be declared as a common type"

end CedarSchema
