import CedarSchema.Resolve.SymbolTable

/-
  What a reference is bound to in the namespace where it stands. A qualified name is a full name,
  unless its first segment is __cedar, which names built-in types only. An unqualified name is
  tried in the namespace itself, then in the root namespace, then among the built-in types; in each
  namespace a common type goes before an entity type.
-/

namespace CedarSchema

/-- What a reference stands for; declarations are given by their full names. -/
inductive Binding
  | commonType (name : String)
  | entityType (name : String)
  | builtin (type : ResolvedType)

namespace SymbolTable

/-- What is declared under a full name. -/
def bindFull (t : SymbolTable) (name : String) : Option Binding :=
  if t.hasCommonType name then some (.commonType name)
  else if t.hasEntityType name then some (.entityType name)
  else none

/-- What an unqualified name means in the namespace `ns`. -/
def bindUnqualified (t : SymbolTable) (ns name : String) : Option Binding :=
  t.bindFull (qualify ns name) <|> t.bindFull name <|> (builtinType name).map .builtin

/-- What a reference to a type means in the namespace `ns`. -/
def lookupType (t : SymbolTable) (ns : String) (p : Path) : Except ResolveError Binding :=
  let undefined := ResolveError.undefinedType p.text ns
  if p.isQualified then
    if p.segments.head? = some builtinNamespace then
      let name := Text.join "::" p.segments.tail
      match builtinType name with
      | some b => .ok (.builtin b)
      | none => .error (.undefinedBuiltin name)
    else
      match t.bindFull p.text with
      | some b => .ok b
      | none => .error undefined
  else
    match t.bindUnqualified ns p.basename with
    | some b => .ok b
    | none => .error undefined

/-- The full names that a reference to an entity type may stand for, in the order they are tried. -/
def entityCandidates (ns : String) (p : Path) : List String :=
  if p.isQualified then [p.text] else [qualify ns p.basename, p.basename]

/-- The entity type that a reference names in the namespace `ns`. -/
def lookupEntityType (t : SymbolTable) (ns : String) (p : Path) : Except ResolveError String :=
  match (entityCandidates ns p).find? t.hasEntityType with
  | some name => .ok name
  | none => .error (.undefinedType p.text ns)

end SymbolTable

end CedarSchema
