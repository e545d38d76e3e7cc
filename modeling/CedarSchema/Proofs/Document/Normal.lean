import CedarSchema.Document.Writer

/-
  What a document keeps of a schema. Comments are dropped, every declaration has one name, and
  namespaces, declarations, attributes and annotations stand in ascending order; where a name is
  used twice the last use counts. Reading the document of a schema gives this normal form back
  (`Schema.ofDocument_document`), as long as the schema is tidy.
-/

namespace CedarSchema

/-! ## Annotations -/

/-- The annotations in ascending order of their keys. An empty value counts as none. -/
def normalAnnotations (annotations : List Annotation) : List Annotation :=
  (annotationDict annotations).entries.map fun (key, value) =>
    ⟨key, if value.isEmpty then none else some value⟩

/-! ## Types -/

mutual

def TypeExpr.normal : TypeExpr → TypeExpr
  | .path p => .path p
  | .entity p => .entity p
  | .set element => .set element.normal
  | .record r => .record (Record.normal r)
termination_by structural t => t

def Record.normal : Record TypeExpr → Record TypeExpr
  | ⟨attributes, _⟩ => { attributes := (Dict.ofList (normalAttributes attributes)).values }
termination_by structural r => r

/-- Attributes under their names, in the order they are written. -/
def normalAttributes : List (Attribute TypeExpr) → List (String × Attribute TypeExpr)
  | [] => []
  | ⟨name, type, required, annotations, _⟩ :: rest =>
    (name, { name, type := type.normal, required, annotations := normalAnnotations annotations }) ::
      normalAttributes rest
termination_by structural attributes => attributes

end

/-! ## Declarations -/

/-- What is declared under one of the names of a declaration. -/
def EntityDecl.normal (d : EntityDecl) (name : String) : EntityDecl where
  names := [name]
  parents := d.parents
  shape := d.shape.map Record.normal
  tags := d.tags.map TypeExpr.normal
  annotations := normalAnnotations d.annotations

def EnumDecl.normal (d : EnumDecl) (name : String) : EnumDecl where
  names := [name]
  values := d.values
  annotations := normalAnnotations d.annotations

def AppliesTo.normal (a : AppliesTo) : AppliesTo where
  principals := a.principals
  resources := a.resources
  context := a.context.map TypeExpr.normal

def ActionDecl.normal (d : ActionDecl) (name : String) : ActionDecl where
  names := [name]
  parents := d.parents
  appliesTo := d.appliesTo.map AppliesTo.normal
  annotations := normalAnnotations d.annotations

def CommonTypeDecl.normal (d : CommonTypeDecl) : CommonTypeDecl where
  name := d.name
  type := d.type.normal
  annotations := normalAnnotations d.annotations

namespace Decl

/-- The common type that a declaration declares, under its name. -/
def commonTypeEntries : Decl → List (String × Decl)
  | commonType d => [(d.name, .commonType d.normal)]
  | _ => []

/-- The entity types of either kind that a declaration declares, under their names. -/
def entityTypeEntries : Decl → List (String × Decl)
  | entity d => d.names.map fun n => (n, .entity (d.normal n))
  | enum d => d.names.map fun n => (n, .enum (d.normal n))
  | _ => []

/-- The actions that a declaration declares, under their names. -/
def actionEntries : Decl → List (String × Decl)
  | action d => d.names.map fun n => (n, .action (d.normal n))
  | _ => []

end Decl

/-! ## Schemas -/

/-- The declarations of one namespace: common types, then entity types, then actions. -/
def normalDecls (decls : List Decl) : List Decl :=
  (Dict.ofList (decls.flatMap Decl.commonTypeEntries)).values ++
    (Dict.ofList (decls.flatMap Decl.entityTypeEntries)).values ++
    (Dict.ofList (decls.flatMap Decl.actionEntries)).values

/-- The items for one namespace: a block, or bare declarations for the root. -/
def normalItems (ns : String) (annotations : List Annotation) (decls : List Decl) : List Item :=
  if ns = "" then (normalDecls decls).map .decl
  else
    [.block {
      path := Path.ofText ns
      decls := normalDecls decls
      annotations := normalAnnotations annotations }]

def Schema.normal (s : Schema) : Schema where
  items := s.namespaces.entries.flatMap fun (ns, decls) =>
    normalItems ns (s.annotationsOf ns) decls

/-! ## Tidy schemas -/

/-- The path is the one that its text spells. -/
def Path.Spelled (p : Path) : Prop := Path.ofText p.text = p

mutual

/-- Every path in the type is spelled by its text, and no record in it repeats the name of an
attribute. -/
def TypeExpr.Tidy : TypeExpr → Prop
  | .path p => p.Spelled
  | .entity p => p.Spelled
  | .set element => element.Tidy
  | .record r => Record.Tidy r
termination_by structural t => t

def Record.Tidy : Record TypeExpr → Prop
  | ⟨attributes, _⟩ => TidyAttributes attributes ∧ (attributes.map Attribute.name).Nodup
termination_by structural r => r

def TidyAttributes : List (Attribute TypeExpr) → Prop
  | [] => True
  | ⟨_, type, _, _, _⟩ :: rest => type.Tidy ∧ TidyAttributes rest
termination_by structural attributes => attributes

end

structure EntityDecl.Tidy (d : EntityDecl) : Prop where
  names : d.names ≠ []
  parents : ∀ p ∈ d.parents, p.Spelled
  shape : ∀ r ∈ d.shape, Record.Tidy r
  tags : ∀ t ∈ d.tags, t.Tidy

structure EnumDecl.Tidy (d : EnumDecl) : Prop where
  names : d.names ≠ []
  values : d.values ≠ []

structure AppliesTo.Tidy (a : AppliesTo) : Prop where
  principals : ∀ ps ∈ a.principals, ∀ p ∈ ps, p.Spelled
  resources : ∀ rs ∈ a.resources, ∀ r ∈ rs, r.Spelled
  context : ∀ t ∈ a.context, t.Tidy

structure ActionDecl.Tidy (d : ActionDecl) : Prop where
  names : d.names ≠ []
  parents : ∀ r ∈ d.parents, ∀ p ∈ r.type, p.Spelled
  appliesTo : ∀ a ∈ d.appliesTo, a.Tidy

/-- A declaration as it is read: with a name at least, and spelled by the texts of its paths. -/
def Decl.Tidy : Decl → Prop
  | .entity d => d.Tidy
  | .enum d => d.Tidy
  | .action d => d.Tidy
  | .commonType d => d.type.Tidy

/-- An item as it is read. A block is never that of the root namespace. -/
def Item.Tidy : Item → Prop
  | .block b => b.path.text ≠ "" ∧ ∀ d ∈ b.decls, d.Tidy
  | .decl d => d.Tidy

def Schema.Tidy (s : Schema) : Prop := ∀ i ∈ s.items, i.Tidy

end CedarSchema
