import CedarSchema.Parse.References

/-
  Reading types: paths, sets and records. The word Set names a set type only where an angle bracket
  follows it; otherwise it is a path like any other.
-/

namespace CedarSchema

open ParseState

/-- A question mark says that an attribute may be absent. -/
def presence (s : ParseState) : Except ParseError (Reading (s.left + 1) Bool) :=
  Reading.map Option.isNone <$> s.optional [.punct .question] fun s => s.expect .question

/-- The closing brace of a record, which takes the comments before it; `wanted` is what to ask for
in its absence. -/
def recordEnd (s₀ : ParseState) (wanted : List Wanted) :
    Except ParseError (Reading s₀.left (Record TypeExpr)) := do
  let ⟨_, s, h⟩ ← s₀.takePending.expectFor wanted .rightBrace
  return ⟨⟨[], { remaining := s₀.pendingTexts }⟩, s, h⟩

mutual

/-- A type. -/
def TypeExpr.read (s₀ : ParseState) : Except ParseError (Reading s₀.left TypeExpr) := do
  match s₀.lookahead with
  | .punct .leftBrace => Reading.map .record <$> Record.read s₀
  | .ident _ =>
    let ⟨p, s, h⟩ ← Path.read s₀
    if p.segments = ["Set"] then
      match ← s.eat .leftAngle with
      | some ⟨_, s, h'⟩ =>
        have h := left_trans h' h
        let ⟨element, s, h⟩ ← Reading.below h <$> TypeExpr.read s
        let ⟨_, s, h⟩ ← Reading.below h <$> s.expect .rightAngle
        return ⟨.set element, s, h⟩
      | none => return ⟨.path p, s, h⟩
    else return ⟨.path p, s, h⟩
  | _ => throw (s₀.unexpected [.type])
termination_by (s₀.left, 1)
decreasing_by
  · exact Prod.Lex.right _ Nat.zero_lt_one
  · exact Prod.Lex.left _ _ h

/-- A record type, braces included. -/
def Record.read (s₀ : ParseState) : Except ParseError (Reading s₀.left (Record TypeExpr)) := do
  let ⟨_, s, h⟩ ← s₀.expect .leftBrace
  Reading.below h <$> recordTail [] s
termination_by (s₀.left, 0)
decreasing_by exact Prod.Lex.left _ _ h

/-- The attributes of a record behind its opening brace, through the closing one. None may bear a
name of `names` or of one before it. A comma may stand behind the last attribute. -/
def recordTail (names : List String) (s₀ : ParseState) :
    Except ParseError (Reading s₀.left (Record TypeExpr)) := do
  if s₀.isAt .rightBrace then
    recordEnd s₀ [.punct .rightBrace]
  else
    let ⟨preamble, s, h⟩ ← Preamble.read s₀
    let start := s.here
    let ⟨name, s, h⟩ ← Reading.behind h <$> s.name [.attributeName, .punct .rightBrace]
    if names.contains name then throw ⟨start, .grammatical (.duplicateAttribute name)⟩
    let ⟨required, s, h⟩ ← Reading.upTo h <$> presence s
    let ⟨_, s, h⟩ ← Reading.below h <$> s.expect .colon
    let ⟨type, s, h⟩ ← Reading.below h <$> TypeExpr.read s
    match ← s.eat .comma with
    | some ⟨_, s, h'⟩ =>
      have h := left_trans h' h
      let a := ⟨name, type, required, preamble.annotations, nodeComments preamble.before s⟩
      let ⟨r, s, h⟩ ← Reading.below h <$> recordTail (name :: names) s.takeInline
      return ⟨{ r with attributes := a :: r.attributes }, s, h⟩
    | none =>
      let a := ⟨name, type, required, preamble.annotations, nodeComments preamble.before s⟩
      let ⟨r, s, h⟩ ← Reading.below h <$>
        recordEnd s.takeInline [.punct .comma, .punct .rightBrace]
      return ⟨{ r with attributes := [a] }, s, h⟩
termination_by (s₀.left, 2)
decreasing_by
  · exact Prod.Lex.left _ _ h
  · exact Prod.Lex.left _ _ h

end

end CedarSchema
