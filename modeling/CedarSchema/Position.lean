/-
  Places in a source text. A position is moved by the characters that are read over, so line,
  column and offset always belong to the same place. Lines and columns are counted in 32 bits.
-/

namespace CedarSchema

/-- Lines and columns count from one, columns in characters, in counters that go round behind their
last value, as they do without overflow checks; the offset counts bytes from zero. -/
structure Position where
  lineCounter : UInt32
  columnCounter : UInt32
  offset : Nat
  deriving DecidableEq, Repr

namespace Position

/-- The line that the counter shows. -/
def line (p : Position) : Nat := p.lineCounter.toNat

/-- The column that the counter shows. -/
def column (p : Position) : Nat := p.columnCounter.toNat

/-- The place before the first character of a text. -/
def start : Position := ⟨1, 1, 0⟩

/-- The place behind the character `c`. -/
def after (p : Position) (c : Char) : Position :=
  if c = '\n' then ⟨p.lineCounter + 1, 1, p.offset + c.utf8Size⟩
  else ⟨p.lineCounter, p.columnCounter + 1, p.offset + c.utf8Size⟩

/-- The place behind the characters `cs`. -/
def afterAll (p : Position) (cs : List Char) : Position := cs.foldl after p

theorem afterAll_nil (p : Position) : p.afterAll [] = p := rfl

theorem afterAll_cons (p : Position) (c : Char) (cs : List Char) :
    p.afterAll (c :: cs) = (p.after c).afterAll cs := rfl

theorem afterAll_append (p : Position) (cs ds : List Char) :
    p.afterAll (cs ++ ds) = (p.afterAll cs).afterAll ds := List.foldl_append

end Position

end CedarSchema
