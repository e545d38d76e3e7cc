/-
  Classes of characters that schema text is made of: the blanks between tokens, the characters of
  an identifier, and the white space that is cut from the end of a line comment.
  Identifiers are ASCII words; white space is the Unicode property of that name.
-/

namespace CedarSchema.Text

/-- Only these four characters may stand between tokens. -/
def isBlank (c : Char) : Bool := c = ' ' || c = '\t' || c = '\r' || c = '\n'

/-- The characters an identifier may begin with. -/
def isIdentStart (c : Char) : Bool := c.isAlpha || c = '_'

/-- The characters an identifier may go on with. -/
def isIdentRest (c : Char) : Bool := c.isAlphanum || c = '_'

/-- A letter or underscore, then letters, digits and underscores, all of them ASCII. -/
def isIdentChars : List Char → Bool
  | [] => false
  | c :: r => isIdentStart c && r.all isIdentRest

/-- Whether a text is an identifier. -/
def isIdent (s : String) : Bool := isIdentChars s.toList

theorem isIdentRest_of_isIdentStart {c : Char} (h : isIdentStart c = true) :
    isIdentRest c = true := by
  simp only [isIdentStart, isIdentRest, Char.isAlphanum, Bool.or_eq_true] at *
  exact h.elim (fun h => .inl (.inl h)) .inr

/-- The Unicode property White_Space. -/
def isWhiteSpace (c : Char) : Bool :=
  let n := c.toNat
  (0x9 ≤ n && n ≤ 0xD) || n = 0x20 || n = 0x85 || n = 0xA0 || n = 0x1680 ||
    (0x2000 ≤ n && n ≤ 0x200A) || n = 0x2028 || n = 0x2029 || n = 0x202F || n = 0x205F || n = 0x3000

/-- The text up to its last character that is not white space. -/
def trimEnd : List Char → List Char
  | [] => []
  | c :: r =>
    match trimEnd r with
    | [] => if isWhiteSpace c then [] else [c]
    | kept => c :: kept

end CedarSchema.Text
