import CedarSchema.Path

/-
  Schemas as they are written: declarations of entity types, enumerated entity types, actions and
  common types, alone or in namespace blocks, before any name is looked up. Every node keeps the
  comments that stand at it; comments never change what a schema means.
-/

namespace CedarSchema

/-! ## Comments and annotations -/

/-- Comment texts with their delimiters: on the lines before a node, behind it on its last line,
and before the closing bracket of a node that has one. -/
structure Comments where
  before : List String := []
  inline : Option String := none
  remaining : List String := []
  deriving DecidableEq, Repr

/-- One annotation, `@key("value")` or a bare `@key`. -/
structure Annotation where
  key : String
  value : Option String
  deriving DecidableEq, Repr

/-! ## Types -/

/-- One attribute of a record; its type is a `τ`. -/
structure Attribute (τ : Type) where
  name : String
  type : τ
  required : Bool := true
  annotations : List Annotation := []
  comments : Comments := {}
  deriving Inhabited

/-- A record type; of its comments only the remaining ones stand at the record itself. -/
structure Record (τ : Type) where
  attributes : List (Attribute τ)
  comments : Comments := {}
  deriving Inhabited

/-- A type as it is written. -/
inductive TypeExpr
  /-- A built-in, common or entity type, whichever the name is bound to. -/
  | path (p : Path)
  /-- An entity type and nothing else. Schema text has no spelling for this, documents have. -/
  | entity (p : Path)
  | set (element : TypeExpr)
  | record (r : Record TypeExpr)
  deriving Inhabited

/-! ## Declarations -/

/-- One or more entity types that share all but the name. -/
structure EntityDecl where
  names : List String
  parents : List Path := []
  shape : Option (Record TypeExpr) := none
  tags : Option TypeExpr := none
  annotations : List Annotation := []
  comments : Comments := {}

/-- An entity type whose entities are the listed ones. -/
structure EnumDecl where
  names : List String
  values : List String
  annotations : List Annotation := []
  comments : Comments := {}

/-- A parent of an action. Without a type the parent is an action of the namespace in which the
reference stands. -/
structure ActionRef where
  type : Option Path := none
  id : String
  deriving DecidableEq, Repr

/-- What an action applies to. Nothing said of principals differs from an empty list of them. -/
structure AppliesTo where
  principals : Option (List Path) := none
  resources : Option (List Path) := none
  context : Option TypeExpr := none
  comments : Comments := {}

/-- One or more actions that share all but the name. -/
structure ActionDecl where
  names : List String
  parents : List ActionRef := []
  appliesTo : Option AppliesTo := none
  annotations : List Annotation := []
  comments : Comments := {}

/-- A name for a type. -/
structure CommonTypeDecl where
  name : String
  type : TypeExpr
  annotations : List Annotation := []
  comments : Comments := {}

/-- One declaration. -/
inductive Decl
  | entity (d : EntityDecl)
  | enum (d : EnumDecl)
  | action (d : ActionDecl)
  | commonType (d : CommonTypeDecl)

namespace Decl

/-- The annotations before a declaration. -/
def annotations : Decl → List Annotation
  | entity d => d.annotations
  | enum d => d.annotations
  | action d => d.annotations
  | commonType d => d.annotations

/-- The comments at a declaration. -/
def comments : Decl → Comments
  | entity d => d.comments
  | enum d => d.comments
  | action d => d.comments
  | commonType d => d.comments

end Decl

/-! ## Files -/

/-- Declarations between the braces of a namespace. -/
structure NamespaceBlock where
  path : Path
  decls : List Decl
  annotations : List Annotation := []
  comments : Comments := {}

/-- What stands at the top of a file; a declaration there is in the root namespace. -/
inductive Item
  | block (b : NamespaceBlock)
  | decl (d : Decl)

/-- The items of a file in the order they stand in, and the comments behind the last. -/
structure Schema where
  items : List Item
  remaining : List String := []

end CedarSchema
