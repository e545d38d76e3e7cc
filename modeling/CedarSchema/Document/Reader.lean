import CedarSchema.Document.Error
import CedarSchema.Json.Reader
import CedarSchema.Position
import CedarSchema.Schema
import CedarSchema.Text.Utf8

/-
  Reading the JSON document of a schema. What is read has no comments, and every declaration in it
  has one name. Objects are read in the order of their members, and the first fault ends the work.
-/

namespace CedarSchema

namespace Document

/-! ## Values and members -/

/-- Faults found inside of the member under a key. -/
def under {α : Type} (key : String) (r : Except ShapeError α) : Except ShapeError α :=
  r.mapError (·.under key)

/-- A fault of the value that is looked at itself. -/
def fail {α : Type} (f : ShapeFault) : Except ShapeError α := .error ⟨[], f⟩

/-- The members of an object; anything else is a fault. -/
def membersOf : Json → Except ShapeError (List (String × Json))
  | .object members => .ok members
  | _ => fail .notAnObject

/-- The items of an array; anything else is a fault. -/
def itemsOf : Json → Except ShapeError (List Json)
  | .array items => .ok items
  | _ => fail .notAnArray

/-- The text of a string; anything else is a fault. -/
def textOf : Json → Except ShapeError String
  | .string s => .ok s
  | _ => fail .notAString

/-- Reads each item of an array. -/
def eachItem {α : Type} (read : Json → Except ShapeError α) (j : Json) :
    Except ShapeError (List α) := do
  let items ← itemsOf j
  items.zipIdx.mapM fun (item, i) => under (toString i) (read item)

/-- Reads each member of an object. -/
def eachMember {α : Type} (read : String → Json → Except ShapeError α) (j : Json) :
    Except ShapeError (List α) := do
  let members ← membersOf j
  members.mapM fun (key, value) => under key (read key value)

/-- Reads the member under a key, if there is one. -/
def optional {α : Type} (members : List (String × Json)) (key : String)
    (read : Json → Except ShapeError α) : Except ShapeError (Option α) :=
  match findEntry key members with
  | some j => some <$> under key (read j)
  | none => .ok none

/-- Reads the member under a key, whose absence is a fault. -/
def required {α : Type} (members : List (String × Json)) (key : String) (missing : ShapeFault)
    (read : Json → Except ShapeError α) : Except ShapeError α :=
  match findEntry key members with
  | some j => under key (read j)
  | none => fail missing

/-- A fault at the first member whose key is none of the known ones. -/
def allowOnly (known : List String) (members : List (String × Json)) : Except ShapeError Unit :=
  match members.find? fun e => !known.contains e.1 with
  | some e => under e.1 (fail .unknownField)
  | none => .ok ()

/-- An array of strings. -/
def textsOf (j : Json) : Except ShapeError (List String) := eachItem textOf j

/-- A name that a string spells, with any texts as its segments. -/
def pathOf (j : Json) : Except ShapeError Path := Path.ofText <$> textOf j

/-- An array of names. -/
def pathsOf (j : Json) : Except ShapeError (List Path) := eachItem pathOf j

/-- An empty value reads as a bare annotation. -/
def annotationsOf (j : Json) : Except ShapeError (List Annotation) :=
  eachMember (fun key value => do
    let text ← textOf value
    return ⟨key, if text.isEmpty then none else some text⟩) j

/-- The annotations among the members of an object. -/
def annotationsIn (members : List (String × Json)) : Except ShapeError (List Annotation) := do
  let annotations ← optional members "annotations" annotationsOf
  return annotations.getD []

/-! ## Types -/

/-- A reference to a built-in type that no declaration can capture. -/
def builtinRef (name : String) : TypeExpr :=
  .path (Path.ofText (builtinNamespace ++ "::" ++ name))

/-- The name that a type with the given tag refers to. -/
def nameIn (members : List (String × Json)) (tag : String) : Except ShapeError Path :=
  required members "name" (.missingName tag) pathOf

/-- Whether an attribute is required; if nothing is said, it is. -/
def isRequiredIn (members : List (String × Json)) : Except ShapeError Bool :=
  match findEntry "required" members with
  | some (.bool b) => .ok b
  | some _ => fail .requiredNotABoolean
  | none => .ok true

mutual

/-- A type. A tag that is none of the known ones refers to a declaration itself. -/
def typeOf (j : Json) : Except ShapeError TypeExpr :=
  match j with
  | .object members => do
    let tag ← required members "type" .missingType textOf
    match tag with
    | "Long" => return builtinRef "Long"
    | "String" => return builtinRef "String"
    | "Boolean" => return builtinRef "Bool"
    | "Bool" => return builtinRef "Bool"
    | "Extension" => (fun p => builtinRef p.text) <$> nameIn members tag
    | "Entity" => .entity <$> nameIn members tag
    | "EntityOrCommon" => .path <$> nameIn members tag
    | "Set" => .set <$> elementOf members
    | "Record" => (fun attributes => .record ⟨attributes, {}⟩) <$> attributesIn members
    | _ => return .path (Path.ofText tag)
  | _ => fail .notAnObject
termination_by structural j

/-- The type of the elements of a set: what stands under the key "element". -/
def elementOf (members : List (String × Json)) : Except ShapeError TypeExpr :=
  match members with
  | [] => fail .missingElement
  | (key, j) :: rest =>
    if compare "element" key = .eq then under "element" (typeOf j) else elementOf rest
termination_by structural members

/-- The attributes of a record: what stands under the key "attributes". -/
def attributesIn (members : List (String × Json)) :
    Except ShapeError (List (Attribute TypeExpr)) :=
  match members with
  | [] => .ok []
  | (key, j) :: rest =>
    if compare "attributes" key = .eq then under "attributes" (attributesOf j)
    else attributesIn rest
termination_by structural members

/-- The attributes of a record from the object that holds them. -/
def attributesOf (j : Json) : Except ShapeError (List (Attribute TypeExpr)) :=
  match j with
  | .object members => attributeList members
  | _ => fail .notAnObject
termination_by structural j

/-- Reads each attribute; its type and what else is said of it share one object. -/
def attributeList (members : List (String × Json)) :
    Except ShapeError (List (Attribute TypeExpr)) :=
  match members with
  | [] => .ok []
  | (name, j) :: rest => do
    let first ← under name do
      let members ← membersOf j
      let required ← isRequiredIn members
      let type ← typeOf j
      let annotations ← annotationsIn members
      return { name, type, required, annotations }
    let others ← attributeList rest
    return first :: others
termination_by structural members

end

theorem elementOf_eq_required (members : List (String × Json)) :
    elementOf members = required members "element" .missingElement typeOf := by
  induction members with
  | nil => rfl
  | cons e rest ih =>
    rw [elementOf, ih]
    unfold required
    rw [findEntry]
    split <;> rfl

theorem attributesIn_eq_optional (members : List (String × Json)) :
    attributesIn members =
      (fun found => found.getD []) <$> optional members "attributes" attributesOf := by
  induction members with
  | nil => rfl
  | cons e rest ih =>
    rw [attributesIn, ih]
    unfold optional
    rw [findEntry]
    split
    · dsimp only
      cases under "attributes" (attributesOf e.2) <;> rfl
    · rfl

/-! ## Declarations -/

/-- A common type: the object of its type, which may be annotated. -/
def commonTypeOf (name : String) (j : Json) : Except ShapeError Decl := do
  let members ← membersOf j
  let annotations ← annotationsIn members
  let type ← typeOf j
  return .commonType { name, type, annotations }

/-- The shape of an entity type, which has to be a record. -/
def shapeOf (j : Json) : Except ShapeError (Record TypeExpr) := do
  match ← typeOf j with
  | .record r => return r
  | _ => fail .shapeNotARecord

/-- The values of an enumerated entity type, of which there has to be one. -/
def enumValuesOf (j : Json) : Except ShapeError (List String) := do
  let values ← textsOf j
  if values.isEmpty then fail .emptyEnum else return values

/-- An entity type; one that has values is enumerated. -/
def entityTypeOf (name : String) (j : Json) : Except ShapeError Decl := do
  let members ← membersOf j
  let annotations ← annotationsIn members
  if (findEntry "enum" members).isSome then
    allowOnly ["enum", "annotations"] members
    let values ← optional members "enum" enumValuesOf
    return .enum { names := [name], values := values.getD [], annotations }
  else
    allowOnly ["memberOfTypes", "shape", "tags", "annotations"] members
    let parents ← optional members "memberOfTypes" pathsOf
    let shape ← optional members "shape" shapeOf
    let tags ← optional members "tags" typeOf
    return .entity { names := [name], parents := parents.getD [], shape, tags, annotations }

/-- A parent of an action. Fields other than its id and type are passed over. -/
def actionRefOf (j : Json) : Except ShapeError ActionRef := do
  let members ← membersOf j
  let id ← required members "id" .missingId textOf
  let type ← optional members "type" pathOf
  return ⟨type, id⟩

/-- What an action applies to, from the field for it. -/
def appliesToOf (j : Json) : Except ShapeError AppliesTo := do
  let members ← membersOf j
  allowOnly ["principalTypes", "resourceTypes", "context"] members
  let principals ← optional members "principalTypes" pathsOf
  let resources ← optional members "resourceTypes" pathsOf
  let context ← optional members "context" typeOf
  return { principals, resources, context }

/-- An action from its entry. -/
def actionOf (name : String) (j : Json) : Except ShapeError Decl := do
  let members ← membersOf j
  allowOnly ["memberOf", "appliesTo", "annotations"] members
  let annotations ← annotationsIn members
  let parents ← optional members "memberOf" (eachItem actionRefOf)
  let appliesTo ← optional members "appliesTo" appliesToOf
  return .action { names := [name], parents := parents.getD [], appliesTo, annotations }

/-! ## Schemas -/

/-- The annotations of a namespace. Each of its members has to be known, and is looked at in
order. -/
def namespaceAnnotations (members : List (String × Json)) :
    Except ShapeError (List Annotation) :=
  members.foldlM (fun found (key, j) => under key (
    if key = "annotations" then annotationsOf j
    else if ["entityTypes", "actions", "commonTypes"].contains key then .ok found
    else fail .unknownNamespaceField)) []

/-- The declarations under a key of a namespace. -/
def declsUnder (members : List (String × Json)) (key : String)
    (read : String → Json → Except ShapeError Decl) : Except ShapeError (List Decl) := do
  let decls ← optional members key (eachMember read)
  return decls.getD []

/-- The items for one namespace: a block, or bare declarations for the root. -/
def namespaceOf (name : String) (j : Json) : Except ShapeError (List Item) := do
  let members ← membersOf j
  let annotations ← namespaceAnnotations members
  let commonTypes ← declsUnder members "commonTypes" commonTypeOf
  let entityTypes ← declsUnder members "entityTypes" entityTypeOf
  let actions ← declsUnder members "actions" actionOf
  let decls := commonTypes ++ entityTypes ++ actions
  if name ≠ "" then return [.block { path := Path.ofText name, decls, annotations }]
  else if annotations.isEmpty then return decls.map .decl
  else under "annotations" (fail .annotatedRoot)

end Document

namespace Schema

/-- The schema that a document describes. -/
def ofDocument (j : Json) : Except ShapeError Schema := do
  let items ← Document.eachMember Document.namespaceOf j
  return { items := items.flatten }

/-- The schema that the text of a document describes. -/
def ofDocumentText (text : String) : Except DocumentError Schema :=
  match Json.read? text with
  | none => .error .notJson
  | some j => (ofDocument j).mapError .misshapen

/-- The schema that the bytes of a document describe. -/
def ofDocumentBytes (bytes : ByteArray) : Except DocumentError Schema :=
  match Text.decodeUtf8 bytes with
  | .ok text => ofDocumentText text
  | .error front => .error (.notUtf8 (Position.start.afterAll front).offset)

end Schema

end CedarSchema
