import CedarSchema.Parse.TypeExpr
import CedarSchema.Text.Utf8

/-
  Reading declarations, namespace blocks and whole files.
-/

namespace CedarSchema

open ParseState

/-- The semicolon that ends a declaration, with the comment behind it. Gives the comments of the
declaration, which has `before` in front of it. -/
def declEnd (before : List String) (s₀ : ParseState) (wanted : List Wanted) :
    Except ParseError (Reading s₀.left Comments) := do
  let ⟨_, s, h⟩ ← s₀.expectFor wanted .semicolon
  return ⟨nodeComments before s, s.takeInline, h⟩

/-! ## Entity types -/

/-- The values of an enumerated entity type, of which there has to be one. -/
def enumValues (s₀ : ParseState) : Except ParseError (Reading s₀.left (List String)) := do
  let r ← stringList s₀
  if r.value.isEmpty then throw ⟨s₀.here, .grammatical .emptyEnum⟩ else return r

/-- The parents of an entity type, if there are any. -/
def parentClause (s : ParseState) :
    Except ParseError (Reading (s.left + 1) (Option (List Path))) :=
  s.optional [.ident "in"] (afterWord "in" pathRefs)

/-- A record, with or without an equals sign before it. -/
def shapeRecord (s₀ : ParseState) : Except ParseError (Reading s₀.left (Record TypeExpr)) := do
  match ← s₀.eat .equals with
  | some ⟨_, s, h⟩ => Reading.below h <$> Record.read s
  | none => Record.read s₀

/-- The shape of an entity type, if there is one. -/
def shapeClause (s : ParseState) :
    Except ParseError (Reading (s.left + 1) (Option (Record TypeExpr))) :=
  s.optional [.punct .equals, .punct .leftBrace] shapeRecord

/-- The type of the tags of an entity type, if there is one. -/
def tagsClause (s : ParseState) :
    Except ParseError (Reading (s.left + 1) (Option TypeExpr)) :=
  s.optional [.ident "tags"] (afterWord "tags" TypeExpr.read)

/-- What could follow an entity declaration that so far has the given clauses. -/
def entityWanted (parents shape tags : Bool) : List Wanted :=
  (if !parents && !shape && !tags then [.word "in"] else []) ++
  (if !shape && !tags then [.punct .equals, .punct .leftBrace] else []) ++
  (if !tags then [.word "tags"] else []) ++ [.punct .semicolon]

/-- A declaration that begins with the word entity. -/
def entityDecl (p : Preamble) (s₀ : ParseState) : Except ParseError (Reading s₀.left Decl) := do
  let ⟨names, s, h⟩ ← afterWord "entity" (commaSeparated ident) s₀
  match ← s.eatWord "enum" with
  | some ⟨_, s, h'⟩ =>
    have h := left_trans h' h
    let ⟨values, s, h⟩ ← Reading.below h <$> enumValues s
    let ⟨comments, s, h⟩ ← Reading.below h <$> declEnd p.before s [.punct .semicolon]
    return ⟨.enum ⟨names, values, p.annotations, comments⟩, s, h⟩
  | none =>
    let ⟨parents, s, h⟩ ← Reading.upTo h <$> parentClause s
    let ⟨shape, s, h⟩ ← Reading.upTo h <$> shapeClause s
    let ⟨tags, s, h⟩ ← Reading.upTo h <$> tagsClause s
    let ⟨comments, s, h⟩ ← Reading.below h <$>
      declEnd p.before s (entityWanted parents.isSome shape.isSome tags.isSome)
    return ⟨.entity ⟨names, parents.getD [], shape, tags, p.annotations, comments⟩, s, h⟩

/-! ## Actions -/

/-- The members of an appliesTo clause. -/
inductive Member
  | principal | resource | context
  deriving DecidableEq, Repr

/-- The word that a member begins with. -/
def Member.word : Member → String
  | principal => "principal"
  | resource => "resource"
  | context => "context"

/-- The member that a lexeme names. -/
def Member.ofLexeme : Lexeme → Option Member
  | .ident "principal" => some principal
  | .ident "resource" => some resource
  | .ident "context" => some context
  | _ => none

/-- Whether a clause has the member already. -/
def AppliesTo.has (a : AppliesTo) : Member → Bool
  | .principal => a.principals.isSome
  | .resource => a.resources.isSome
  | .context => a.context.isSome

/-- Reads what a member stands for and adds it to the clause. -/
def AppliesTo.readMember (a : AppliesTo) (m : Member) (s : ParseState) :
    Except ParseError (Reading s.left AppliesTo) :=
  match m with
  | .principal => Reading.map (fun refs => { a with principals := some refs }) <$> pathRefs s
  | .resource => Reading.map (fun refs => { a with resources := some refs }) <$> pathRefs s
  | .context => Reading.map (fun type => { a with context := some type }) <$> TypeExpr.read s

/-- The closing brace of an appliesTo clause, which takes the comments before it. -/
def AppliesTo.readEnd (a : AppliesTo) (s₀ : ParseState) (wanted : List Wanted) :
    Except ParseError (Reading s₀.left AppliesTo) := do
  let ⟨_, s, h⟩ ← s₀.takePending.expectFor wanted .rightBrace
  return ⟨{ a with comments := { remaining := s₀.pendingTexts } }, s, h⟩

/-- The members of an appliesTo clause behind its opening brace or behind those in `a`, through the
closing brace. A comma may stand behind the last member. -/
def AppliesTo.readTail (a : AppliesTo) (s₀ : ParseState) :
    Except ParseError (Reading s₀.left AppliesTo) := do
  match Member.ofLexeme s₀.lookahead with
  | none =>
    a.readEnd s₀ [.word "principal", .word "resource", .word "context", .punct .rightBrace]
  | some m =>
    if a.has m then throw ⟨s₀.here, .grammatical (.duplicateMember m.word)⟩
    let ⟨_, s, h⟩ ← s₀.expectWord m.word
    let ⟨_, s, h⟩ ← Reading.below h <$> s.expect .colon
    let ⟨a, s, h⟩ ← Reading.below h <$> a.readMember m s
    match ← s.eat .comma with
    | some ⟨_, s, h'⟩ =>
      have h := left_trans h' h
      Reading.below h <$> a.readTail s
    | none => Reading.below h <$> a.readEnd s [.punct .comma, .punct .rightBrace]
termination_by s₀.left
decreasing_by exact h

/-- An appliesTo clause behind its word, braces included. -/
def AppliesTo.read (s₀ : ParseState) : Except ParseError (Reading s₀.left AppliesTo) := do
  let ⟨_, s, h⟩ ← s₀.expect .leftBrace
  Reading.below h <$> AppliesTo.readTail {} s

/-- The parents of an action, if there are any. -/
def actionParents (s : ParseState) :
    Except ParseError (Reading (s.left + 1) (List ActionRef)) :=
  Reading.map (fun parents => parents.getD []) <$>
    s.optional [.ident "in"] (afterWord "in" (oneOrBracketed ActionRef.read))

/-- What an action applies to, if it is said. -/
def appliesToClause (s : ParseState) :
    Except ParseError (Reading (s.left + 1) (Option AppliesTo)) :=
  s.optional [.ident "appliesTo"] (afterWord "appliesTo" AppliesTo.read)

/-- Braces with nothing between them. -/
def emptyBraces (s₀ : ParseState) : Except ParseError (Reading s₀.left Unit) := do
  let ⟨_, s, h⟩ ← s₀.expect .leftBrace
  Reading.below h <$> s.expectFor [.emptyClauseEnd] .rightBrace

/-- An attributes clause, which older schemas have; it is empty and means nothing. -/
def attributesClause (s : ParseState) :
    Except ParseError (Reading (s.left + 1) (Option Unit)) :=
  s.optional [.ident "attributes"] (afterWord "attributes" emptyBraces)

/-- What could follow an action declaration that so far has the given clauses. -/
def actionWanted (parents appliesTo : Bool) : List Wanted :=
  (if !parents && !appliesTo then [.word "in"] else []) ++
  (if !appliesTo then [.word "appliesTo"] else []) ++ [.word "attributes", .punct .semicolon]

/-- The name of an action, bare or quoted. -/
def actionName (s : ParseState) : Except ParseError (Reading s.left String) :=
  s.name [.identifier, .stringLiteral]

/-- A declaration that begins with the word action. -/
def actionDecl (p : Preamble) (s₀ : ParseState) : Except ParseError (Reading s₀.left Decl) := do
  let ⟨names, s, h⟩ ← afterWord "action" (commaSeparated actionName) s₀
  let ⟨parents, s, h⟩ ← Reading.upTo h <$> actionParents s
  let ⟨appliesTo, s, h⟩ ← Reading.upTo h <$> appliesToClause s
  let ⟨_, s, h⟩ ← Reading.upTo h <$> attributesClause s
  let ⟨comments, s, h⟩ ← Reading.below h <$>
    declEnd p.before s (actionWanted (!parents.isEmpty) appliesTo.isSome)
  return ⟨.action ⟨names, parents, appliesTo, p.annotations, comments⟩, s, h⟩

/-! ## Common types -/

/-- A declaration that begins with the word type. -/
def commonTypeDecl (p : Preamble) (s₀ : ParseState) :
    Except ParseError (Reading s₀.left Decl) := do
  let ⟨_, s, h⟩ ← s₀.expectWord "type"
  let start := s.here
  let ⟨name, s, h⟩ ← Reading.below h <$> s.ident
  if isReservedTypeName name then throw ⟨start, .grammatical (.reservedTypeName name)⟩
  let ⟨_, s, h⟩ ← Reading.below h <$> s.expect .equals
  let ⟨type, s, h⟩ ← Reading.below h <$> TypeExpr.read s
  let ⟨comments, s, h⟩ ← Reading.below h <$> declEnd p.before s [.punct .semicolon]
  return ⟨.commonType ⟨name, type, p.annotations, comments⟩, s, h⟩

/-! ## Blocks and files -/

/-- A declaration behind its preamble. -/
def Decl.read (p : Preamble) (s : ParseState) : Except ParseError (Reading s.left Decl) :=
  match s.lookahead with
  | .ident "entity" => entityDecl p s
  | .ident "action" => actionDecl p s
  | .ident "type" => commonTypeDecl p s
  | _ => throw (s.unexpected [.word "entity", .word "action", .word "type"])

/-- The declarations of a namespace block behind its opening brace, through the closing one, with
the comments before that brace. -/
def blockTail (s₀ : ParseState) :
    Except ParseError (Reading s₀.left (List Decl × List String)) := do
  match s₀.lookahead with
  | .punct .rightBrace =>
    let ⟨_, s, h⟩ ← s₀.takePending.expect .rightBrace
    return ⟨([], s₀.pendingTexts), s, h⟩
  | .eof => throw (s₀.unexpected [.declarationOrEnd])
  | _ =>
    let ⟨p, s, h⟩ ← Preamble.read s₀
    let ⟨d, s, h⟩ ← Reading.behind h <$> Decl.read p s
    let ⟨(ds, remaining), s, h⟩ ← Reading.below h <$> blockTail s
    return ⟨(d :: ds, remaining), s, h⟩
termination_by s₀.left
decreasing_by exact h

/-- A namespace block behind its preamble, with the comment behind its closing brace. -/
def NamespaceBlock.read (p : Preamble) (s₀ : ParseState) :
    Except ParseError (Reading s₀.left NamespaceBlock) := do
  let ⟨path, s, h⟩ ← afterWord "namespace" Path.read s₀
  let ⟨_, s, h⟩ ← Reading.below h <$> s.expect .leftBrace
  let ⟨(decls, remaining), s, h⟩ ← Reading.below h <$> blockTail s
  let comments := { nodeComments p.before s with remaining }
  return ⟨⟨path, decls, p.annotations, comments⟩, s.takeInline, h⟩

/-- The items of a file from a state on, with the comments behind the last. -/
def fileItems (s₀ : ParseState) : Except ParseError Schema := do
  match s₀.lookahead with
  | .eof => return ⟨[], s₀.pendingTexts⟩
  | _ =>
    let ⟨p, s, h⟩ ← Preamble.read s₀
    match s.lookahead with
    | .ident "namespace" =>
      let ⟨b, s, _⟩ ← Reading.behind h <$> NamespaceBlock.read p s
      let file ← fileItems s
      return { file with items := .block b :: file.items }
    | .eof =>
      throw (s.unexpected [.word "namespace", .word "entity", .word "action", .word "type"])
    | _ =>
      let ⟨d, s, _⟩ ← Reading.behind h <$> Decl.read p s
      let file ← fileItems s
      return { file with items := .decl d :: file.items }
termination_by s₀.left
decreasing_by all_goals assumption

/-- The schema that a stream of tokens spells. -/
def Schema.ofTokens (stream : TokenStream) : Except ParseError Schema := do
  let s ← ParseState.start stream
  fileItems s

/-- The schema that a text spells. -/
def Schema.parse (text : String) : Except ParseError Schema :=
  Schema.ofTokens (.ofText text)

/-- The schema that bytes spell. Bytes that are not UTF-8 fail where the first of them stands that
belongs to no character. -/
def Schema.parseBytes (bytes : ByteArray) : Except ParseError Schema :=
  match Text.decodeUtf8 bytes with
  | .ok text => Schema.parse text
  | .error front => .error ⟨Position.start.afterAll front, .lexical .invalidUtf8⟩

end CedarSchema
