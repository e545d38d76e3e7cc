import CedarSchema.Json.Basic
import CedarSchema.Resolved.Type
import CedarSchema.Schema.Namespaces

/-
  The JSON document of a schema. It has one member for each namespace, and in it one entry for each
  declared name; comments and the order of declarations are left out. Of several declarations of
  one name the last counts.
-/

namespace CedarSchema

/-! ## Types -/

/-- The member for annotations, if there are any. -/
def annotationsMember (annotations : List Annotation) : List (String × Json) :=
  if annotations.isEmpty then [] else [("annotations", .ofTexts (annotationDict annotations))]

/-- An array of names. -/
def pathTexts (paths : List Path) : Json := .ofStrings (paths.map Path.text)

mutual

/-- The members of the object that stands for a type. -/
def TypeExpr.members : TypeExpr → List (String × Json)
  | .path p => [("type", .string "EntityOrCommon"), ("name", .string p.text)]
  | .entity p => [("type", .string "Entity"), ("name", .string p.text)]
  | .set element => [("type", .string "Set"), ("element", .ofMembers element.members)]
  | .record r => Record.members r
termination_by structural t => t

/-- The members of the object that stands for a record type. -/
def Record.members : Record TypeExpr → List (String × Json)
  | ⟨attributes, _⟩ =>
    [("type", .string "Record"), ("attributes", .ofMembers (attributeMembers attributes))]
termination_by structural r => r

/-- A type, with what else is said of an attribute, under the name of each attribute. -/
def attributeMembers : List (Attribute TypeExpr) → List (String × Json)
  | [] => []
  | ⟨name, type, required, annotations, _⟩ :: rest =>
    (name, .ofMembers
      (type.members ++ ("required", .bool required) :: annotationsMember annotations)) ::
      attributeMembers rest
termination_by structural attributes => attributes

end

/-- The object that stands for a type. -/
def TypeExpr.document (t : TypeExpr) : Json := .ofMembers t.members

/-! ## Declarations -/

/-- The member under `key` for a part that may be absent. -/
def optionalMember {α : Type} (key : String) (write : α → Json) (a : Option α) :
    List (String × Json) :=
  (a.map fun a => (key, write a)).toList

/-- The entry of an entity type, under whatever name; parents are always listed. -/
def EntityDecl.document (d : EntityDecl) : Json :=
  .ofMembers (("memberOfTypes", pathTexts d.parents) ::
    (optionalMember "shape" (fun r => .ofMembers (Record.members r)) d.shape ++
      optionalMember "tags" TypeExpr.document d.tags ++
      annotationsMember d.annotations))

/-- The entry of an enumerated entity type. -/
def EnumDecl.document (d : EnumDecl) : Json :=
  .ofMembers (("enum", .ofStrings d.values) :: annotationsMember d.annotations)

/-- A parent of an action, with its type if the reference has one. -/
def ActionRef.document (r : ActionRef) : Json :=
  .ofMembers (("id", .string r.id) :: optionalMember "type" (fun p => .string p.text) r.type)

/-- What an action applies to, only what is said of it. -/
def AppliesTo.document (a : AppliesTo) : Json :=
  .ofMembers (optionalMember "principalTypes" pathTexts a.principals ++
    optionalMember "resourceTypes" pathTexts a.resources ++
    optionalMember "context" TypeExpr.document a.context)

/-- The entry of an action; parents are always listed. -/
def ActionDecl.document (d : ActionDecl) : Json :=
  .ofMembers (("memberOf", .array (d.parents.map ActionRef.document)) ::
    (optionalMember "appliesTo" AppliesTo.document d.appliesTo ++
      annotationsMember d.annotations))

/-- The entry of a common type: the members of its type with those for annotations. -/
def CommonTypeDecl.document (d : CommonTypeDecl) : Json :=
  .ofMembers (d.type.members ++ annotationsMember d.annotations)

namespace Decl

/-- What a declaration adds to the entity types of its namespace. -/
def entityTypeMembers : Decl → List (String × Json)
  | entity d => d.names.map fun n => (n, d.document)
  | enum d => d.names.map fun n => (n, d.document)
  | _ => []

/-- What a declaration adds to the actions of its namespace. -/
def actionMembers : Decl → List (String × Json)
  | action d => d.names.map fun n => (n, d.document)
  | _ => []

/-- What a declaration adds to the common types of its namespace. -/
def commonTypeMembers : Decl → List (String × Json)
  | commonType d => [(d.name, d.document)]
  | _ => []

end Decl

/-! ## Schemas -/

/-- The annotations of all blocks of a namespace, in the order they stand in the file. -/
def Schema.annotationsOf (s : Schema) (ns : String) : List Annotation :=
  s.items.flatMap fun
    | .block b => if b.path.text = ns then b.annotations else []
    | .decl _ => []

/-- The document of one namespace, given its annotations and declarations. -/
def namespaceDocument (annotations : List Annotation) (decls : List Decl) : Json :=
  .ofMembers (annotationsMember annotations ++
    [("entityTypes", .ofMembers (decls.flatMap Decl.entityTypeMembers)),
      ("actions", .ofMembers (decls.flatMap Decl.actionMembers)),
      ("commonTypes", .ofMembers (decls.flatMap Decl.commonTypeMembers))])

/-- The document of a schema: the namespaces in the order of their names. -/
def Schema.document (s : Schema) : Json :=
  .object (s.namespaces.entries.map fun (ns, decls) =>
    (ns, namespaceDocument (s.annotationsOf ns) decls))

end CedarSchema
