import CedarSchema.Json.Basic

/-
  The text of a JSON value: either on one line without blanks, or with each item and member on a
  line of its own, indented by two blanks for every bracket around it.
-/

namespace CedarSchema.Json

/-! ## Strings -/

/-- The digit of a number below sixteen, in lower case. -/
def hexDigit (n : Nat) : Char := Nat.digitChar n

/-- One character inside quotes. Only quotes, backslashes and characters below U+0020 are
escaped. -/
def escapeChar (c : Char) : List Char :=
  if c = '"' then ['\\', '"']
  else if c = '\\' then ['\\', '\\']
  else if c = '\x08' then ['\\', 'b']
  else if c = '\x0c' then ['\\', 'f']
  else if c = '\n' then ['\\', 'n']
  else if c = '\r' then ['\\', 'r']
  else if c = '\t' then ['\\', 't']
  else if c.toNat < 0x20 then
    ['\\', 'u', '0', '0', hexDigit (c.toNat / 16), hexDigit (c.toNat % 16)]
  else [c]

/-- A string with its quotes. -/
def quoted (s : String) : List Char := '"' :: (s.toList.flatMap escapeChar ++ ['"'])

/-- Values without items or members. -/
def scalarChars : Json → List Char
  | .null => "null".toList
  | .bool true => "true".toList
  | .bool false => "false".toList
  | .number digits => digits.toList
  | .string s => quoted s
  | .array _ => ['[', ']']
  | .object _ => ['{', '}']

/-! ## One line -/

mutual

/-- A value on one line. -/
def chars : Json → List Char
  | .array items => '[' :: (itemChars items ++ [']'])
  | .object members => '{' :: (memberChars members ++ ['}'])
  | j => j.scalarChars
termination_by structural j => j

/-- Items with commas between them. -/
def itemChars : List Json → List Char
  | [] => []
  | j :: rest => j.chars ++ restChars rest
termination_by structural items => items

/-- Items behind the first, each behind a comma. -/
def restChars : List Json → List Char
  | [] => []
  | j :: rest => ',' :: (j.chars ++ restChars rest)
termination_by structural items => items

/-- Members with commas between them. -/
def memberChars : List (String × Json) → List Char
  | [] => []
  | (k, j) :: rest => quoted k ++ ':' :: (j.chars ++ restMemberChars rest)
termination_by structural members => members

/-- Members behind the first, each behind a comma. -/
def restMemberChars : List (String × Json) → List Char
  | [] => []
  | (k, j) :: rest => ',' :: (quoted k ++ ':' :: (j.chars ++ restMemberChars rest))
termination_by structural members => members

end

/-- The text of a value on one line. -/
def text (j : Json) : String := String.ofList j.chars

/-! ## One line for each item and member -/

/-- The beginning of a line inside `depth` brackets. -/
def newLine (depth : Nat) : List Char := '\n' :: List.replicate (2 * depth) ' '

mutual

/-- A value that stands inside `depth` brackets. -/
def prettyChars (depth : Nat) : Json → List Char
  | .array [] => ['[', ']']
  | .array (j :: rest) =>
    '[' :: (newLine (depth + 1) ++ j.prettyChars (depth + 1) ++
      prettyRest (depth + 1) rest ++ newLine depth ++ [']'])
  | .object [] => ['{', '}']
  | .object ((k, j) :: rest) =>
    '{' :: (newLine (depth + 1) ++ quoted k ++ [':', ' '] ++ j.prettyChars (depth + 1) ++
      prettyMembers (depth + 1) rest ++ newLine depth ++ ['}'])
  | j => j.scalarChars
termination_by structural j => j

/-- Items behind the first. -/
def prettyRest (depth : Nat) : List Json → List Char
  | [] => []
  | j :: rest => ',' :: (newLine depth ++ j.prettyChars depth ++ prettyRest depth rest)
termination_by structural items => items

/-- Members behind the first. -/
def prettyMembers (depth : Nat) : List (String × Json) → List Char
  | [] => []
  | (k, j) :: rest =>
    ',' :: (newLine depth ++ quoted k ++ [':', ' '] ++ j.prettyChars depth ++
      prettyMembers depth rest)
termination_by structural members => members

end

/-- The text of a value on lines of its own. -/
def pretty (j : Json) : String := String.ofList (j.prettyChars 0)

end CedarSchema.Json
