import CedarSchema.Resolve.Chain
import CedarSchema.Resolve.Lookup

/-
  Replacing common types by what they stand for. A common type is expanded in the namespace that
  declares it, whatever namespace refers to it. Each is expanded once and then kept; the common
  types being expanded form a chain, and a reference back into the chain is a cycle. The chain
  holds declared names only and none twice, which is why the expansion ends.
-/

namespace CedarSchema

/-- Common types expanded so far. -/
abbrev Expanded := Dict String ResolvedType

namespace SymbolTable

/-- The number of declared common types that are not on the chain. -/
def unvisited (t : SymbolTable) (chain : List String) : Nat :=
  outside (t.commonTypes.map Prod.fst) chain

theorem mem_of_commonType? {t : SymbolTable} {name : String} {d : Scoped CommonTypeDecl}
    (h : t.commonType? name = some d) : name ∈ t.commonTypes.map Prod.fst := by
  obtain ⟨l, r, h, -⟩ := List.lookup_eq_some_iff.1 h
  simp [h]

theorem unvisited_append_lt {t : SymbolTable} {chain : List String} {name : String}
    {d : Scoped CommonTypeDecl} (hd : t.commonType? name = some d)
    (hn : chain.contains name = false) : t.unvisited (chain ++ [name]) < t.unvisited chain :=
  outside_append_lt (mem_of_commonType? hd) hn

mutual

/-- The type that `type` stands for in the namespace `ns`, while the common types of `chain` are
being expanded. -/
def resolveType (t : SymbolTable) (chain : List String) (ns : String) (type : TypeExpr)
    (expanded : Expanded) : Except ResolveError (ResolvedType × Expanded) :=
  match type with
  | .path p =>
    match t.lookupType ns p with
    | .error e => .error e
    | .ok (.builtin b) => .ok (b, expanded)
    | .ok (.entityType name) => .ok (.entity name, expanded)
    | .ok (.commonType name) => t.expand chain name expanded
  | .entity p => do
    let name ← t.lookupEntityType ns p
    return (.entity name, expanded)
  | .set element => do
    let (element, expanded) ← t.resolveType chain ns element expanded
    return (.set element, expanded)
  | .record ⟨attributes, _⟩ => do
    let (fields, expanded) ← t.resolveFields chain ns .empty attributes expanded
    return (.record fields.entries, expanded)
termination_by (t.unvisited chain, sizeOf type)

/-- The fields that attributes stand for, added to `fields`. An attribute of a name that is there
already is an error. -/
def resolveFields (t : SymbolTable) (chain : List String) (ns : String)
    (fields : Dict String (Field ResolvedType)) (attributes : List (Attribute TypeExpr))
    (expanded : Expanded) :
    Except ResolveError (Dict String (Field ResolvedType) × Expanded) :=
  match attributes with
  | [] => .ok (fields, expanded)
  | ⟨name, type, required, annotations, _⟩ :: rest => do
    let (type, expanded) ← t.resolveType chain ns type expanded
    if fields.contains name then throw (.duplicate .field name)
    let fields := fields.insert name ⟨type, required, annotationDict annotations⟩
    t.resolveFields chain ns fields rest expanded
termination_by (t.unvisited chain, sizeOf attributes)

/-- What the common type `name` stands for. -/
def expand (t : SymbolTable) (chain : List String) (name : String) (expanded : Expanded) :
    Except ResolveError (ResolvedType × Expanded) :=
  match expanded.find? name with
  | some type => .ok (type, expanded)
  | none =>
    if hn : chain.contains name then .error (.commonTypeCycle (cycleFrom name chain))
    else
      match hd : t.commonType? name with
      | none => .error (.undefinedType name "")
      | some d => do
        have := unvisited_append_lt hd (Bool.eq_false_iff.2 hn)
        let (type, expanded) ← t.resolveType (chain ++ [name]) d.ns d.decl.type expanded
        return (type, expanded.insert name type)
termination_by (t.unvisited chain, 0)

end

end SymbolTable

end CedarSchema
