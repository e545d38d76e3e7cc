import CedarSchema.Json.Basic

/-
  The published format of documents: which fields an object must and may have, and what may stand
  in them. It says nothing of names; a document of this format may describe a schema that cannot be
  resolved.
-/

namespace CedarSchema.Document

/-! ## Fields -/

/-- Any string. -/
def isText : Json → Bool
  | .string _ => true
  | _ => false

/-- True or false. -/
def isTruthValue : Json → Bool
  | .bool _ => true
  | _ => false

/-- An array of items that pass a test. -/
def isArrayOf (test : Json → Bool) : Json → Bool
  | .array items => items.all test
  | _ => false

/-- An object all values of which pass a test. -/
def isObjectOf (test : Json → Bool) : Json → Bool
  | .object members => members.all fun e => test e.2
  | _ => false

/-- An object whose members together pass a test. -/
def isObjectWith (test : List (String × Json) → Bool) : Json → Bool
  | .object members => test members
  | _ => false

/-- The field `key` is there and passes a test. -/
def hasField (members : List (String × Json)) (key : String) (test : Json → Bool) : Bool :=
  (findEntry key members).any test

/-- The field `key` passes a test if it is there. -/
def mayHaveField (members : List (String × Json)) (key : String) (test : Json → Bool) : Bool :=
  (findEntry key members).all test

/-- There are no other fields than the given ones. -/
def hasOnlyFields (members : List (String × Json)) (keys : List String) : Bool :=
  members.all fun e => keys.contains e.1

/-- An object of strings. -/
def isAnnotations : Json → Bool := isObjectOf isText

/-! ## Types -/

/-- The tags of types that refer to something by name. -/
def namingTags : List String := ["Entity", "Extension", "EntityOrCommon"]

/-- What may be said of an attribute besides its type. -/
def isAttributeDetail : Json → Bool := isObjectWith fun members =>
  mayHaveField members "required" isTruthValue &&
    mayHaveField members "annotations" isAnnotations

mutual

/-- A type is an object with a tag. Tags that refer to something need a name, sets the type of
their elements; other fields are free. -/
def isType : Json → Bool
  | .object members =>
    match findEntry "type" members with
    | some (.string tag) =>
      (!namingTags.contains tag || hasField members "name" isText) &&
        (tag != "Set" || hasElementType members) &&
        (tag != "Record" || mayHaveAttributes members)
    | _ => false
  | _ => false
termination_by structural j => j

/-- The field "element" is there and holds a type. -/
def hasElementType : List (String × Json) → Bool
  | [] => false
  | (key, j) :: rest =>
    if compare "element" key = .eq then isType j else hasElementType rest
termination_by structural members => members

/-- The field "attributes" holds attributes if it is there. -/
def mayHaveAttributes : List (String × Json) → Bool
  | [] => true
  | (key, j) :: rest =>
    if compare "attributes" key = .eq then areAttributes j else mayHaveAttributes rest
termination_by structural members => members

/-- An object of attributes. -/
def areAttributes : Json → Bool
  | .object members => allAttributes members
  | _ => false
termination_by structural j => j

/-- Each value is a type with right details of an attribute. -/
def allAttributes : List (String × Json) → Bool
  | [] => true
  | (_, j) :: rest => isType j && isAttributeDetail j && allAttributes rest
termination_by structural members => members

end

/-- A type with the tag of records. -/
def isRecordType : Json → Bool := isObjectWith fun members =>
  (match findEntry "type" members with
    | some (.string tag) => tag == "Record"
    | _ => false) &&
    mayHaveAttributes members

/-- A type that may be annotated. -/
def isCommonType (j : Json) : Bool :=
  isType j && isObjectWith (fun members => mayHaveField members "annotations" isAnnotations) j

/-! ## Declarations -/

/-- An entity type with a list of values, which is not empty. -/
def isEnumType : Json → Bool := isObjectWith fun members =>
  hasField members "enum" (fun j => isArrayOf isText j && j matches .array (_ :: _)) &&
    mayHaveField members "annotations" isAnnotations &&
    hasOnlyFields members ["enum", "annotations"]

/-- An entity type without a list of values. -/
def isPlainEntityType : Json → Bool := isObjectWith fun members =>
  mayHaveField members "memberOfTypes" (isArrayOf isText) &&
    mayHaveField members "shape" isRecordType &&
    mayHaveField members "tags" isType &&
    mayHaveField members "annotations" isAnnotations &&
    hasOnlyFields members ["memberOfTypes", "shape", "tags", "annotations"]

/-- Exactly one of the two kinds of entity types. -/
def isEntityType (j : Json) : Bool := isEnumType j != isPlainEntityType j

/-- A parent of an action, with no other fields than its id and type. -/
def isActionRef : Json → Bool := isObjectWith fun members =>
  hasField members "id" isText &&
    mayHaveField members "type" isText &&
    hasOnlyFields members ["id", "type"]

/-- What an action applies to. -/
def isAppliesTo : Json → Bool := isObjectWith fun members =>
  mayHaveField members "principalTypes" (isArrayOf isText) &&
    mayHaveField members "resourceTypes" (isArrayOf isText) &&
    mayHaveField members "context" isType &&
    hasOnlyFields members ["principalTypes", "resourceTypes", "context"]

/-- An action; all of its fields may be absent. -/
def isAction : Json → Bool := isObjectWith fun members =>
  mayHaveField members "memberOf" (isArrayOf isActionRef) &&
    mayHaveField members "appliesTo" isAppliesTo &&
    mayHaveField members "annotations" isAnnotations &&
    hasOnlyFields members ["memberOf", "appliesTo", "annotations"]

/-! ## Documents -/

/-- A namespace; all of its fields may be absent. -/
def isNamespace : Json → Bool := isObjectWith fun members =>
  mayHaveField members "annotations" isAnnotations &&
    mayHaveField members "entityTypes" (isObjectOf isEntityType) &&
    mayHaveField members "actions" (isObjectOf isAction) &&
    mayHaveField members "commonTypes" (isObjectOf isCommonType) &&
    hasOnlyFields members ["annotations", "entityTypes", "actions", "commonTypes"]

/-- Whether a value has the published format. -/
def isValid : Json → Bool := isObjectOf isNamespace

end CedarSchema.Document
