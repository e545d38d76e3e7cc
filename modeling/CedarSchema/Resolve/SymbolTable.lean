import CedarSchema.Resolve.Error
import CedarSchema.Schema.Namespaces

/-
  What a schema declares, under full names. Entity types and enumerated entity types share one set
  of names; common types and actions have their own. A name declared twice is an error, and so is a
  common type with a reserved name.
-/

namespace CedarSchema

/-- Each list is in the order of declaration. -/
structure SymbolTable where
  commonTypes : List (String × Scoped CommonTypeDecl) := []
  entityTypes : List String := []
  actionUids : List EntityUid := []
  entities : List (Scoped EntityDecl) := []
  enums : List (Scoped EnumDecl) := []
  actions : List (Scoped ActionDecl) := []

namespace SymbolTable

/-- The common type with a full name, and the namespace that declares it. -/
def commonType? (t : SymbolTable) (name : String) : Option (Scoped CommonTypeDecl) :=
  t.commonTypes.lookup name

/-- Whether there is a common type with a full name. -/
def hasCommonType (t : SymbolTable) (name : String) : Bool := (t.commonType? name).isSome

/-- Whether there is an entity type with a full name, enumerated or not. -/
def hasEntityType (t : SymbolTable) (name : String) : Bool := t.entityTypes.contains name

/-! ## Declaring -/

/-- Adds the full name of an entity type, which has to be new among them. -/
def declareEntityType (t : SymbolTable) (name : String) : Except ResolveError SymbolTable :=
  if t.hasEntityType name then .error (.duplicate .entityType name)
  else .ok { t with entityTypes := t.entityTypes ++ [name] }

/-- Adds the identity of an action, which has to be new among them. -/
def declareAction (t : SymbolTable) (uid : EntityUid) : Except ResolveError SymbolTable :=
  if t.actionUids.contains uid then .error (.duplicate .action uid.text)
  else .ok { t with actionUids := t.actionUids ++ [uid] }

/-- Adds a common type, whose full name has to be new among them. -/
def declareCommonType (t : SymbolTable) (name : String) (d : Scoped CommonTypeDecl) :
    Except ResolveError SymbolTable :=
  if t.hasCommonType name then .error (.duplicate .commonType name)
  else .ok { t with commonTypes := t.commonTypes ++ [(name, d)] }

/-- Declares all that a declaration in the namespace `ns` declares. -/
def declare (t : SymbolTable) (ns : String) : Decl → Except ResolveError SymbolTable
  | .entity d => do
    let t ← d.names.foldlM (fun t n => t.declareEntityType (qualify ns n)) t
    return { t with entities := t.entities ++ [⟨ns, d⟩] }
  | .enum d => do
    let t ← d.names.foldlM (fun t n => t.declareEntityType (qualify ns n)) t
    return { t with enums := t.enums ++ [⟨ns, d⟩] }
  | .action d => do
    let t ← d.names.foldlM (fun t n => t.declareAction ⟨actionType ns, n⟩) t
    return { t with actions := t.actions ++ [⟨ns, d⟩] }
  | .commonType d =>
    if isReservedTypeName d.name then .error (.reservedName d.name)
    else t.declareCommonType (qualify ns d.name) ⟨ns, d⟩

/-- The table of a schema; namespaces are taken in the order of their names. -/
def ofSchema (s : Schema) : Except ResolveError SymbolTable :=
  s.scopedDecls.foldlM (fun t d => t.declare d.ns d.decl) {}

end SymbolTable

end CedarSchema
