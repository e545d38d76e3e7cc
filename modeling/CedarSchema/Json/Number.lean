/-
  Numbers as JSON writes them, and which of them are too large. A number is read as a significand
  of at most 64 bits times a power of ten; it is refused if the product of the two, each first
  rounded to 53 bits, would round to more than the largest finite number of double precision.
-/

namespace CedarSchema.Json

/-! ## Rounding -/

/-- The number of binary digits. -/
def bitLength (n : Nat) : Nat := if n = 0 then 0 else Nat.log2 n + 1

/-- The nearest number with at most 53 significant binary digits; of two nearest, the one whose
last significant digit is even. -/
def round53 (n : Nat) : Nat :=
  let shift := bitLength n - 53
  let unit := Nat.pow 2 shift
  let q := n / unit
  let twice := 2 * (n % unit)
  if twice > unit || (twice = unit && q % 2 = 1) then (q + 1) * unit else q * unit

/-- From here on numbers round to no finite number of double precision. -/
def doubleLimit : Nat := Nat.pow 2 1024 - Nat.pow 2 970

/-- Whether `significand` times ten to the `exponent` is too large. -/
def isTooLarge (significand : Nat) (exponent : Int) : Bool :=
  match exponent with
  | .ofNat e =>
    significand ≠ 0 && (308 < e || doubleLimit ≤ round53 significand * round53 (Nat.pow 10 e))
  | .negSucc _ => false

/-! ## Reading -/

/-- The value of a decimal digit. -/
def digitValue (c : Char) : Nat := c.toNat - '0'.toNat

/-- Significands are kept in 64 bits. -/
def significandLimit : Nat := Nat.pow 2 64

/-- Takes digits into the significand as long as it stays below the limit. Gives the significand,
the number of digits taken and the number of those left. -/
def takeDigits (significand : Nat) : List Char → Nat × Nat × Nat
  | [] => (significand, 0, 0)
  | c :: cs =>
    let next := 10 * significand + digitValue c
    if next < significandLimit then
      let (s, taken, left) := takeDigits next cs
      (s, taken + 1, left)
    else (significand, 0, cs.length + 1)

/-- The digits of a number around its point, with its exponent. -/
structure Decimal where
  whole : List Char
  fraction : List Char
  exponent : Int

/-- Digits of the whole part that do not fit count as powers of ten; those of the fraction that do
not fit are dropped. -/
def Decimal.isTooLarge (d : Decimal) : Bool :=
  let (s, _, left) := takeDigits 0 d.whole
  let (s, taken, _) := takeDigits s d.fraction
  Json.isTooLarge s (d.exponent + left - taken)

/-- The digits at the front of a text, and what follows them. -/
def spanDigits (cs : List Char) : List Char × List Char :=
  (cs.takeWhile Char.isDigit, cs.dropWhile Char.isDigit)

/-- The whole part of a number: a zero, or digits of which the first is none. -/
def wholePart : List Char → Option (List Char × List Char)
  | '0' :: c :: r => if c.isDigit then none else some (['0'], c :: r)
  | ['0'] => some (['0'], [])
  | cs =>
    match spanDigits cs with
    | ([], _) => none
    | found => some found

/-- The fraction, if a point begins one; it has a digit at least. -/
def fractionPart : List Char → Option (List Char × List Char)
  | '.' :: r =>
    match spanDigits r with
    | ([], _) => none
    | found => some found
  | cs => some ([], cs)

/-- The sign of an exponent and what follows it. -/
def exponentSign : List Char → Bool × List Char
  | '+' :: r => (false, r)
  | '-' :: r => (true, r)
  | cs => (false, cs)

/-- The exponent, if a letter begins one; it has a digit at least. -/
def exponentPart (cs : List Char) : Option (Int × List Char) :=
  match cs with
  | [] => some (0, [])
  | c :: r =>
    if c = 'e' || c = 'E' then
      let (negative, r) := exponentSign r
      match spanDigits r with
      | ([], _) => none
      | (digits, r) =>
        let n : Nat := digits.foldl (fun n c => 10 * n + digitValue c) 0
        some (if negative then -n else n, r)
    else some (0, cs)

/-- A number without its sign, and what follows it. -/
def decimal (cs : List Char) : Option (Decimal × List Char) := do
  let (whole, r) ← wholePart cs
  let (fraction, r) ← fractionPart r
  let (exponent, r) ← exponentPart r
  return (⟨whole, fraction, exponent⟩, r)

/-- The number that a text spells; its sign is left out. -/
def Decimal.ofChars? (cs : List Char) : Option Decimal :=
  let unsigned := match cs with
    | '-' :: r => r
    | _ => cs
  match decimal unsigned with
  | some (d, []) => some d
  | _ => none

/-- The characters that numbers are made of. -/
def isNumberChar (c : Char) : Bool :=
  c.isDigit || c = '-' || c = '+' || c = '.' || c = 'e' || c = 'E'

end CedarSchema.Json
