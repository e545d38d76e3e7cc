import CedarSchema.Resolve.Expansion
import CedarSchema.Resolve.Membership

/-
  Resolving a schema. Duplicates are found first, then common types are expanded, used or not; then
  come entity types, enumerated entity types and actions, and last the membership of actions. The
  first failure ends the work.
-/

namespace CedarSchema

namespace SymbolTable

/-! ## Common types -/

/-- Expands all of some common types, each from an empty chain. -/
def expandAll (t : SymbolTable) (names : List String) (expanded : Expanded) :
    Except ResolveError Expanded :=
  names.foldlM (fun expanded name => Prod.snd <$> t.expand [] name expanded) expanded

/-- The expansions of all declared common types. -/
def expandCommonTypes (t : SymbolTable) : Except ResolveError Expanded :=
  t.expandAll (t.commonTypes.map Prod.fst) .empty

/-! ## Entity types -/

/-- The full names of the entity types that are referred to, in the order of the references. -/
def resolveRefs (t : SymbolTable) (ns : String) (refs : List Path) :
    Except ResolveError (List String) :=
  refs.mapM (t.lookupEntityType ns)

/-- The fields of a shape, if there is one. -/
def resolveShape (t : SymbolTable) (ns : String) (shape : Option (Record TypeExpr))
    (expanded : Expanded) : Except ResolveError (Option Fields × Expanded) :=
  match shape with
  | none => .ok (none, expanded)
  | some r => do
    let (fields, expanded) ← t.resolveFields [] ns .empty r.attributes expanded
    return (some fields.entries, expanded)

/-- The type of tags, if there is one. -/
def resolveTags (t : SymbolTable) (ns : String) (tags : Option TypeExpr) (expanded : Expanded) :
    Except ResolveError (Option ResolvedType × Expanded) :=
  match tags with
  | none => .ok (none, expanded)
  | some type => do
    let (type, expanded) ← t.resolveType [] ns type expanded
    return (some type, expanded)

/-- The entity types that a declaration declares; they differ in their names only. -/
def resolveEntity (t : SymbolTable) (d : Scoped EntityDecl) (expanded : Expanded) :
    Except ResolveError (List ResolvedEntity × Expanded) := do
  let parents ← t.resolveRefs d.ns d.decl.parents
  let (shape, expanded) ← t.resolveShape d.ns d.decl.shape expanded
  let (tags, expanded) ← t.resolveTags d.ns d.decl.tags expanded
  let annotations := annotationDict d.decl.annotations
  return (d.decl.names.map fun n => ⟨qualify d.ns n, annotations, parents, shape, tags⟩, expanded)

/-- The entity types of some declarations, in the order of declaration. -/
def resolveEntities (t : SymbolTable) (decls : List (Scoped EntityDecl)) (expanded : Expanded) :
    Except ResolveError (List ResolvedEntity × Expanded) :=
  match decls with
  | [] => .ok ([], expanded)
  | d :: rest => do
    let (entities, expanded) ← t.resolveEntity d expanded
    let (others, expanded) ← t.resolveEntities rest expanded
    return (entities ++ others, expanded)

/-- The enumerated entity types that a declaration declares. -/
def resolveEnum (d : Scoped EnumDecl) : List ResolvedEnum :=
  d.decl.names.map fun n => ⟨qualify d.ns n, annotationDict d.decl.annotations, d.decl.values⟩

/-! ## Actions -/

/-- The identity of a parent of an action of the namespace `ns`. -/
def parentUid (ns : String) (r : ActionRef) : EntityUid :=
  match r.type with
  | some p => ⟨p.text, r.id⟩
  | none => ⟨actionType ns, r.id⟩

/-- The fields of a context, which has to be a record; `uid` is the action it belongs to. Without a
context there are no fields. -/
def resolveContext (t : SymbolTable) (ns : String) (uid : EntityUid) (context : Option TypeExpr)
    (expanded : Expanded) : Except ResolveError (Fields × Expanded) :=
  match context with
  | none => .ok ([], expanded)
  | some type => do
    match ← t.resolveType [] ns type expanded with
    | (.record fields, expanded) => return (fields, expanded)
    | (other, _) => throw (.invalidContext uid other)

/-- What the action `uid` applies to. Where no principals or resources are named, there are none. -/
def resolveAppliesTo (t : SymbolTable) (ns : String) (uid : EntityUid) (a : Option AppliesTo)
    (expanded : Expanded) : Except ResolveError (Option ResolvedAppliesTo × Expanded) :=
  match a with
  | none => .ok (none, expanded)
  | some a => do
    let principals ← t.resolveRefs ns (a.principals.getD [])
    let resources ← t.resolveRefs ns (a.resources.getD [])
    let (context, expanded) ← t.resolveContext ns uid a.context expanded
    return (some ⟨principals, resources, context⟩, expanded)

/-- The action that a declaration declares under one of its names. -/
def resolveAction (t : SymbolTable) (d : Scoped ActionDecl) (name : String)
    (expanded : Expanded) : Except ResolveError (ResolvedAction × Expanded) := do
  let uid := ⟨actionType d.ns, name⟩
  let (appliesTo, expanded) ← t.resolveAppliesTo d.ns uid d.decl.appliesTo expanded
  return (⟨uid, annotationDict d.decl.annotations, d.decl.parents.map (parentUid d.ns), appliesTo⟩,
    expanded)

/-- The actions of some declarations, each given with one of its names. -/
def resolveActions (t : SymbolTable) (decls : List (Scoped ActionDecl × String))
    (expanded : Expanded) : Except ResolveError (List ResolvedAction × Expanded) :=
  match decls with
  | [] => .ok ([], expanded)
  | (d, name) :: rest => do
    let (action, expanded) ← t.resolveAction d name expanded
    let (others, expanded) ← t.resolveActions rest expanded
    return (action :: others, expanded)

/-- Each action declaration with each of its names. -/
def namedActions (t : SymbolTable) : List (Scoped ActionDecl × String) :=
  t.actions.flatMap fun d => d.decl.names.map fun n => (d, n)

end SymbolTable

/-! ## Schemas -/

/-- All that a schema declares, with nothing left to look up. -/
def Schema.resolve (s : Schema) : Except ResolveError ResolvedSchema := do
  let t ← SymbolTable.ofSchema s
  let expanded ← t.expandCommonTypes
  let (entities, expanded) ← t.resolveEntities t.entities expanded
  let (actions, _) ← t.resolveActions t.namedActions expanded
  let actions := Dict.ofList (actions.map fun a => (a.uid, a))
  ActionDict.check actions
  return {
    entities := .ofList (entities.map fun e => (e.name, e))
    enums := .ofList ((t.enums.flatMap SymbolTable.resolveEnum).map fun e => (e.name, e))
    actions }

end CedarSchema
