import CedarSchema.Json.Basic
import CedarSchema.Resolved.Schema

/-
  The JSON value of a resolved schema. Entity types stand under their names, and actions under the
  text of their identities.
-/

namespace CedarSchema

/-- The member for annotations, if there are any. -/
def annotationDictMember (annotations : Dict String String) : List (String × Json) :=
  if annotations.isEmpty then [] else [("annotations", .ofTexts annotations)]

/-! ## Types -/

mutual

/-- A type: its tag, and what the tag asks for. -/
def ResolvedType.toJson : ResolvedType → Json
  | .bool => .ofMembers [("type", .string "Bool")]
  | .long => .ofMembers [("type", .string "Long")]
  | .string => .ofMembers [("type", .string "String")]
  | .extension e => .ofMembers [("type", .string "Extension"), ("name", .string e.name)]
  | .set element => .ofMembers [("type", .string "Set"), ("element", element.toJson)]
  | .record fields =>
    .ofMembers [("type", .string "Record"), ("attributes", .object (fieldMembers fields))]
  | .entity name => .ofMembers [("type", .string "Entity"), ("name", .string name)]
termination_by structural t => t

/-- What is said of each field, under its name. -/
def fieldMembers : List (String × Field ResolvedType) → List (String × Json)
  | [] => []
  | (name, ⟨type, required, annotations⟩) :: rest =>
    (name, .ofMembers (("type", type.toJson) :: ("required", .bool required) ::
      annotationDictMember annotations)) :: fieldMembers rest
termination_by structural fields => fields

end

/-- A record that stands where nothing but a record can. -/
def Fields.toJson (fields : Fields) : Json :=
  .ofMembers [("attributes", .object (fieldMembers fields))]

/-! ## Entity types and actions -/

/-- An entity type; annotations, shape and tags are left out where there are none. -/
def ResolvedEntity.toJson (e : ResolvedEntity) : Json :=
  .ofMembers (("name", .string e.name) :: ("member_of", .ofStrings e.parents) ::
    (annotationDictMember e.annotations ++
      (e.shape.map fun r => ("shape", Fields.toJson r)).toList ++
      (e.tags.map fun t => ("tags", t.toJson)).toList))

/-- An enumerated entity type. -/
def ResolvedEnum.toJson (e : ResolvedEnum) : Json :=
  .ofMembers (("name", .string e.name) :: ("values", .ofStrings e.values) ::
    annotationDictMember e.annotations)

/-- An identity by its parts. -/
def EntityUid.toJson (u : EntityUid) : Json :=
  .ofMembers [("type", .string u.type), ("id", .string u.id)]

/-- What an action applies to. -/
def ResolvedAppliesTo.toJson (a : ResolvedAppliesTo) : Json :=
  .ofMembers [("principals", .ofStrings a.principals), ("resources", .ofStrings a.resources),
    ("context", Fields.toJson a.context)]

/-- An action; what it applies to is null if that is nothing. -/
def ResolvedAction.toJson (a : ResolvedAction) : Json :=
  .ofMembers (("uid", a.uid.toJson) :: ("member_of", .array (a.parents.map EntityUid.toJson)) ::
    ("applies_to", (a.appliesTo.map ResolvedAppliesTo.toJson).getD .null) ::
    annotationDictMember a.annotations)

/-! ## Schemas -/

/-- The JSON value of a resolved schema. -/
def ResolvedSchema.toJson (r : ResolvedSchema) : Json :=
  .ofMembers [
    ("entities", .object (r.entities.entries.map fun (name, e) => (name, e.toJson))),
    ("enums", .object (r.enums.entries.map fun (name, e) => (name, e.toJson))),
    ("actions", .ofMembers (r.actions.entries.map fun (uid, a) => (uid.text, a.toJson)))]

end CedarSchema
