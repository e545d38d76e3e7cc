import CedarSchema.Parse.Failure

/-
  The state of reading a schema: one token of lookahead, and the comments read over on the way to
  it. Comments never reach the grammar: they wait until a node takes them. A reading comes with a
  bound on the tokens left, so that whatever reads a token is seen to come nearer to the end.
-/

namespace CedarSchema

/-- A comment that no node has taken yet. -/
structure Remark where
  text : String
  start : Position
  deriving DecidableEq, Repr

/-- The token that is looked at and those behind it, or the end of the text. -/
inductive Front
  | eof (pos : Position)
  | token (t : Token) (rest : TokenStream)

/-- What is ahead, the comments no node has taken yet, and the place behind the last token. -/
structure ParseState where
  front : Front
  pending : List Remark
  /-- The place behind the last token read, on line 0 before the first. -/
  last : Position

namespace ParseState

/-- The number of tokens ahead. -/
def left (s : ParseState) : Nat :=
  match s.front with
  | .eof _ => 0
  | .token _ rest => rest.length + 1

end ParseState

/-- A value and the state behind it, which has fewer than `bound` tokens ahead. -/
structure Reading (bound : Nat) (α : Type) where
  value : α
  state : ParseState
  left_lt : state.left < bound

namespace Reading

variable {bound : Nat} {α β : Type}

/-- A reading with another value. -/
def map (f : α → β) (r : Reading bound α) : Reading bound β := ⟨f r.value, r.state, r.left_lt⟩

/-- A reading on from a state that itself is below a bound. -/
def below {s : ParseState} (h : s.left < bound) (r : Reading s.left α) : Reading bound α :=
  ⟨r.value, r.state, Nat.lt_trans r.left_lt h⟩

/-- A reading of something optional, on from a state that itself is below a bound. -/
def upTo {s : ParseState} (h : s.left < bound) (r : Reading (s.left + 1) α) : Reading bound α :=
  ⟨r.value, r.state, Nat.lt_of_le_of_lt (Nat.le_of_lt_succ r.left_lt) h⟩

/-- A reading on from a state behind something optional. -/
def behind {s s' : ParseState} (h : s'.left < s.left + 1) (r : Reading s'.left α) :
    Reading s.left α :=
  ⟨r.value, r.state, Nat.lt_of_lt_of_le r.left_lt (Nat.le_of_lt_succ h)⟩

end Reading

namespace ParseState

theorem left_trans {s s' s₀ : ParseState} (h' : s'.left < s.left) (h : s.left < s₀.left) :
    s'.left < s₀.left := Nat.lt_trans h' h

theorem left_lt_succ {s s' : ParseState} (h : s'.left < s.left) : s'.left < s.left + 1 :=
  Nat.lt_succ_of_lt h

theorem left_lt_succ_self (s : ParseState) : s.left < s.left + 1 := Nat.lt_succ_self s.left

/-! ## Looking -/

/-- What the token that is looked at says. -/
def lookahead (s : ParseState) : Lexeme :=
  match s.front with
  | .eof _ => .eof
  | .token t _ => t.lexeme

/-- The place of the lookahead. -/
def here (s : ParseState) : Position :=
  match s.front with
  | .eof pos => pos
  | .token t _ => t.start

/-- Whether the punctuation `p` comes next. -/
def isAt (s : ParseState) (p : Punct) : Bool := s.lookahead = .punct p

/-- Whether the word `w` comes next. -/
def isAtWord (s : ParseState) (w : String) : Bool := s.lookahead = .ident w

/-- The failure that something else was wanted where the lookahead stands. -/
def unexpected (s : ParseState) (wanted : List Wanted) : ParseError :=
  ⟨s.here, .grammatical (.expected wanted s.lookahead)⟩

/-! ## Reading -/

/-- The state before the first token that is no comment; the comments join those pending. -/
def enter (pending : List Remark) (last : Position) :
    (stream : TokenStream) → Except ParseError (Reading (stream.length + 1) Unit)
  | .eof pos => .ok ⟨(), ⟨.eof pos, pending, last⟩, by simp [left, TokenStream.length]⟩
  | .failed pos e => .error ⟨pos, .lexical e⟩
  | .token t rest =>
    match t.lexeme with
    | .comment text => do
      let r ← enter (pending ++ [⟨text, t.start⟩]) last rest
      return ⟨(), r.state, Nat.lt_succ_of_lt r.left_lt⟩
    | _ => .ok ⟨(), ⟨.token t rest, pending, last⟩, by simp [left, TokenStream.length]⟩

/-- The state at the beginning of a text. -/
def start (stream : TokenStream) : Except ParseError ParseState := do
  let r ← enter [] ⟨0, 0, 0⟩ stream
  return r.state

/-- Reads the lookahead if `accept` takes it, and fails with what was wanted otherwise. -/
def take {α : Type} (s : ParseState) (wanted : List Wanted) (accept : Lexeme → Option α) :
    Except ParseError (Reading s.left α) :=
  match h : s.front with
  | .eof _ => .error (s.unexpected wanted)
  | .token t rest =>
    match accept t.lexeme with
    | none => .error (s.unexpected wanted)
    | some a => do
      let r ← enter s.pending t.stop rest
      return ⟨a, r.state, by have := r.left_lt; simpa [left, h] using this⟩

/-- Reads the punctuation `p`; `wanted` is what to ask for in its absence. -/
def expectFor (s : ParseState) (wanted : List Wanted) (p : Punct) :
    Except ParseError (Reading s.left Unit) :=
  s.take wanted fun l => if l = .punct p then some () else none

/-- Reads the punctuation `p`, which is itself what to ask for in its absence. -/
def expect (s : ParseState) (p : Punct) : Except ParseError (Reading s.left Unit) :=
  s.expectFor [.punct p] p

/-- Reads the word `w`. -/
def expectWord (s : ParseState) (w : String) : Except ParseError (Reading s.left Unit) :=
  s.take [.word w] fun l => if l = .ident w then some () else none

/-- Reads an identifier; the words of the grammar are identifiers too. -/
def ident (s : ParseState) : Except ParseError (Reading s.left String) :=
  s.take [.identifier] fun
    | .ident name => some name
    | _ => none

/-- Reads a string literal. -/
def stringLiteral (s : ParseState) : Except ParseError (Reading s.left String) :=
  s.take [.stringLiteral] fun
    | .str value => some value
    | _ => none

/-- Reads a name, bare or quoted; `wanted` is what to ask for in its absence. -/
def name (s : ParseState) (wanted : List Wanted) : Except ParseError (Reading s.left String) :=
  s.take wanted fun
    | .ident name => some name
    | .str value => some value
    | _ => none

/-- Reads the punctuation `p` if it is there. -/
def eat (s : ParseState) (p : Punct) : Except ParseError (Option (Reading s.left Unit)) :=
  if s.isAt p then some <$> s.expect p else return none

/-- Reads the word `w` if it is there. -/
def eatWord (s : ParseState) (w : String) : Except ParseError (Option (Reading s.left Unit)) :=
  if s.isAtWord w then some <$> s.expectWord w else return none

/-- What `read` reads if the lookahead is one of `begins`, and nothing otherwise. -/
def optional {α : Type} (s : ParseState) (begins : List Lexeme)
    (read : (s : ParseState) → Except ParseError (Reading s.left α)) :
    Except ParseError (Reading (s.left + 1) (Option α)) := do
  if begins.contains s.lookahead then
    let ⟨a, s', h⟩ ← read s
    return ⟨some a, s', left_lt_succ h⟩
  else return ⟨none, s, s.left_lt_succ_self⟩

/-- What `read` reads behind the word `w`. -/
def afterWord {α : Type} (w : String)
    (read : (s : ParseState) → Except ParseError (Reading s.left α)) (s : ParseState) :
    Except ParseError (Reading s.left α) := do
  let ⟨_, s', h⟩ ← s.expectWord w
  Reading.below h <$> read s'

/-! ## Taking comments -/

/-- The texts of the comments that no node has taken yet. -/
def pendingTexts (s : ParseState) : List String := s.pending.map Remark.text

/-- The state once all pending comments are taken. -/
def takePending (s : ParseState) : ParseState := { s with pending := [] }

/-- Whether a comment starts on the line of the last token read, behind it. -/
def isInline (s : ParseState) (r : Remark) : Bool :=
  r.start.line = s.last.line && s.last.offset ≤ r.start.offset

/-- The first pending comment behind the last token read, on its line. -/
def inlineText (s : ParseState) : Option String := (s.pending.find? s.isInline).map Remark.text

/-- The state once the inline comment is taken, if there is one. -/
def takeInline (s : ParseState) : ParseState := { s with pending := s.pending.eraseP s.isInline }

end ParseState

end CedarSchema
