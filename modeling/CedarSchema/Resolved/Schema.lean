import CedarSchema.EntityUid
import CedarSchema.Resolved.Type

/-
  Resolved schemas: every declared entity type and every action under its full name, with all that
  was said of it and nothing left to look up.
-/

namespace CedarSchema

/-- An entity type under its full name; its parents are full names of entity types. -/
structure ResolvedEntity where
  name : String
  annotations : Dict String String
  parents : List String
  shape : Option Fields
  tags : Option ResolvedType

/-- An enumerated entity type under its full name. -/
structure ResolvedEnum where
  name : String
  annotations : Dict String String
  values : List String

/-- The entities of an enumerated type, in the order they are declared in. -/
def ResolvedEnum.uids (e : ResolvedEnum) : List EntityUid := e.values.map fun v => ⟨e.name, v⟩

/-- Entity types by their full names, and the fields of the context. -/
structure ResolvedAppliesTo where
  principals : List String
  resources : List String
  context : Fields

/-- An action; its parents are identities of actions. -/
structure ResolvedAction where
  uid : EntityUid
  annotations : Dict String String
  parents : List EntityUid
  /-- None if the action applies to nothing. -/
  appliesTo : Option ResolvedAppliesTo

/-- What a schema declares, under full names. -/
structure ResolvedSchema where
  entities : Dict String ResolvedEntity
  enums : Dict String ResolvedEnum
  actions : Dict EntityUid ResolvedAction

namespace ResolvedSchema

/-- The entity type with a full name, if it is not enumerated. -/
def entity? (r : ResolvedSchema) (name : String) : Option ResolvedEntity := r.entities.find? name

/-- The enumerated entity type with a full name. -/
def enum? (r : ResolvedSchema) (name : String) : Option ResolvedEnum := r.enums.find? name

/-- The action with an id among those of a type. -/
def action? (r : ResolvedSchema) (type id : String) : Option ResolvedAction :=
  r.actions.find? ⟨type, id⟩

end ResolvedSchema

end CedarSchema
