import CedarSchema.Text.Unprintable

/-
  How a text is written as a string literal of the schema language, and how one character is shown
  in a message. Both write what cannot be seen as a hexadecimal escape.
-/

namespace CedarSchema.Text

/-- The digits of `n` in lower case, without leading zeros. -/
def hexDigits (n : Nat) : List Char := Nat.toDigits 16 n

/-- The escape `\u` with the code point of `c` in braces. -/
def hexEscape (c : Char) : List Char := '\\' :: 'u' :: '{' :: (hexDigits c.toNat ++ ['}'])

/-- C0 and C1 controls and DEL. -/
def isControl (c : Char) : Bool := c.toNat ≤ 0x1F || (0x7F ≤ c.toNat && c.toNat ≤ 0x9F)

/-- Characters a literal never holds as they are: controls, soft hyphen, zero-width and
bidirectional marks, line and paragraph separators, the byte order mark and noncharacters. -/
def needsEscape (c : Char) : Bool :=
  let n := c.toNat
  isControl c || n = 0xAD || (0x200B ≤ n && n ≤ 0x200F) || (0x2028 ≤ n && n ≤ 0x202E) ||
    (0x2060 ≤ n && n ≤ 0x206F) || n = 0xFEFF || (0xFFF0 ≤ n && n ≤ 0xFFFB) ||
    n % 0x10000 = 0xFFFE || n % 0x10000 = 0xFFFF

/-- One character as it is written between the quotes of a literal. -/
def encodeChar (c : Char) : List Char :=
  if c = '"' then ['\\', '"']
  else if c = '\\' then ['\\', '\\']
  else if c = '\n' then ['\\', 'n']
  else if c = '\r' then ['\\', 'r']
  else if c = '\t' then ['\\', 't']
  else if c = '\x00' then ['\\', '0']
  else if needsEscape c then hexEscape c
  else [c]

/-- The string literal that stands for a text. -/
def quoteChars (cs : List Char) : List Char := '"' :: (cs.flatMap encodeChar ++ ['"'])

/-- The string literal that stands for a text, as a text. -/
def quote (s : String) : String := String.ofList (quoteChars s.toList)

/-- One character between single quotes, as messages show it. -/
def showChar (c : Char) : String :=
  let inner : List Char :=
    if c = '\'' then ['\\', '\'']
    else if c = '\\' then ['\\', '\\']
    else if c = '\n' then ['\\', 'n']
    else if c = '\r' then ['\\', 'r']
    else if c = '\t' then ['\\', 't']
    else if c = '\x00' then ['\\', '0']
    else if isUnprintable c then hexEscape c
    else [c]
  String.ofList ('\'' :: (inner ++ ['\'']))

end CedarSchema.Text
