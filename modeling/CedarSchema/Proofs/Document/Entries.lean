import CedarSchema.Json.Basic

/-
  Looking into a document. A document has one member for each namespace, and a namespace has objects
  of entries under some keys; an entry is known by its namespace and its name (`entriesUnder`,
  `entryAt`).
-/

namespace CedarSchema

namespace Json

/-- The members of an object; other values have none. -/
def members : Json → List (String × Json)
  | .object members => members
  | _ => []

/-- The member under a key, if the value is an object that has one. -/
def at? (j : Json) (key : String) : Option Json := member? j.members key

/-- The text under a key, if there is one. -/
def textAt? (j : Json) (key : String) : Option String :=
  match j.at? key with
  | some (.string text) => some text
  | _ => none

end Json

namespace Document

/-- The entry of a name under a key of a namespace. -/
def entryAt (key : String) (j : Json) (ns name : String) : Option Json :=
  ((j.at? ns).bind (·.at? key)).bind (·.at? name)

end Document

end CedarSchema
