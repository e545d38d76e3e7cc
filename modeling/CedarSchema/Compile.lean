import CedarSchema.Failure
import CedarSchema.Parse.Decl
import CedarSchema.Resolve.Schema

/-
  From the bytes of a file to a resolved schema, and how much it declares.
-/

namespace CedarSchema

/-- The schema that bytes spell, as it is written and resolved. -/
def compile (bytes : ByteArray) : Except SchemaError (Schema × ResolvedSchema) := do
  let schema ← (Schema.parseBytes bytes).mapError .parse
  let resolved ← schema.resolve.mapError .resolve
  return (schema, resolved)

/-- Whether a common type is declared. -/
def Decl.isCommonType : Decl → Bool
  | commonType _ => true
  | _ => false

/-- How many things of each kind are declared. -/
structure Tally where
  namespaces : Nat
  entityTypes : Nat
  enums : Nat
  actions : Nat
  commonTypes : Nat
  deriving DecidableEq, Repr

/-- What is declared, and the number of items that it takes in the file. -/
structure Counts extends Tally where
  items : Nat
  deriving DecidableEq, Repr

/-- The counts of a schema that resolves to `r`. Common types do not outlast resolution and are
counted in the schema itself. -/
def Counts.of (s : Schema) (r : ResolvedSchema) : Counts where
  namespaces := s.namespaces.size
  entityTypes := r.entities.size
  enums := r.enums.size
  actions := r.actions.size
  commonTypes := (s.namespaces.values.flatten.filter Decl.isCommonType).length
  items := s.items.length

end CedarSchema
