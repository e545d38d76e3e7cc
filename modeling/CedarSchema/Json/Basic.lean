import CedarSchema.Dict

/-
  JSON values. The members of an object stand in ascending order of their keys, none of them twice:
  objects are built from dictionaries.
-/

namespace CedarSchema

/-- A JSON value. Numbers are kept as they are written, for none of them is computed with. -/
inductive Json
  | null
  | bool (b : Bool)
  /-- A number as it is written. -/
  | number (digits : String)
  | string (s : String)
  | array (items : List Json)
  | object (members : List (String × Json))
  deriving Inhabited

namespace Json

/-- The object with the given members; of equal keys the last counts. -/
def ofMembers (members : List (String × Json)) : Json := .object (Dict.ofList members).entries

/-- A number in decimal digits. -/
def ofNat (n : Nat) : Json := .number (toString n)

/-- Texts under keys. -/
def ofTexts (d : Dict String String) : Json :=
  .object (d.entries.map fun (k, v) => (k, .string v))

/-- An array of strings. -/
def ofStrings (items : List String) : Json := .array (items.map .string)

/-- The member of an object under a key. -/
def member? (members : List (String × Json)) (key : String) : Option Json := findEntry key members

mutual

/-- How deep arrays and objects are nested. -/
def depth : Json → Nat
  | .array items => depthOfItems items + 1
  | .object members => depthOfMembers members + 1
  | _ => 0
termination_by structural j => j

/-- The largest depth of an item, zero without items. -/
def depthOfItems : List Json → Nat
  | [] => 0
  | j :: rest => max j.depth (depthOfItems rest)
termination_by structural items => items

/-- The largest depth of a value under a key, zero without members. -/
def depthOfMembers : List (String × Json) → Nat
  | [] => 0
  | (_, j) :: rest => max j.depth (depthOfMembers rest)
termination_by structural members => members

end

end Json

end CedarSchema
