import CedarSchema.Parse.Decl

/-
  The grammar of schema text. A rule says which lexemes spell what: on one side lexemes none of
  which is a comment, on the other the tree they stand for, without comments. The rules speak of no
  parser. What a context-free grammar cannot say stands as a premise at the node concerned: keys of
  annotations and names of attributes differ, no member of an appliesTo clause comes twice, and no
  common type bears a reserved name.
-/

namespace CedarSchema

/-! ## Trees without comments -/

mutual

def TypeExpr.bare : TypeExpr → TypeExpr
  | .path p => .path p
  | .entity p => .entity p
  | .set element => .set element.bare
  | .record r => .record (Record.bare r)
termination_by structural t => t

def Record.bare : Record TypeExpr → Record TypeExpr
  | ⟨attributes, _⟩ => ⟨bareAttributes attributes, {}⟩
termination_by structural r => r

def bareAttributes : List (Attribute TypeExpr) → List (Attribute TypeExpr)
  | [] => []
  | ⟨name, type, required, annotations, _⟩ :: rest =>
    ⟨name, type.bare, required, annotations, {}⟩ :: bareAttributes rest
termination_by structural attributes => attributes

end

def AppliesTo.bare (a : AppliesTo) : AppliesTo :=
  { a with context := a.context.map TypeExpr.bare, comments := {} }

def Decl.bare : Decl → Decl
  | .entity d =>
    .entity { d with
      shape := d.shape.map Record.bare, tags := d.tags.map TypeExpr.bare, comments := {} }
  | .enum d => .enum { d with comments := {} }
  | .action d => .action { d with appliesTo := d.appliesTo.map AppliesTo.bare, comments := {} }
  | .commonType d => .commonType { d with type := d.type.bare, comments := {} }

def NamespaceBlock.bare (b : NamespaceBlock) : NamespaceBlock :=
  { b with decls := b.decls.map Decl.bare, comments := {} }

def Item.bare : Item → Item
  | .block b => .block b.bare
  | .decl d => .decl d.bare

/-- A file without its comments. -/
def Schema.bare (s : Schema) : Schema := ⟨s.items.map Item.bare, []⟩

namespace Grammar

/-! ## Combinations of rules -/

section

variable {α : Type}

/-- `[rule]` -/
inductive Optional (rule : List Lexeme → α → Prop) : List Lexeme → Option α → Prop
  | none : Optional rule [] none
  | some {ws : List Lexeme} {x : α} : rule ws x → Optional rule ws (some x)

/-- `'word' rule` -/
inductive AfterWord (word : String) (rule : List Lexeme → α → Prop) : List Lexeme → α → Prop
  | mk {ws : List Lexeme} {x : α} : rule ws x → AfterWord word rule (.ident word :: ws) x

/-- `item {',' item}` -/
inductive Commas (item : List Lexeme → α → Prop) : List Lexeme → List α → Prop
  | one {ws : List Lexeme} {x : α} : item ws x → Commas item ws [x]
  | more {ws ws' : List Lexeme} {x : α} {xs : List α} :
      item ws x → Commas item ws' xs → Commas item (ws ++ .punct .comma :: ws') (x :: xs)

/-- `[item {',' item} [',']]`: behind an item and a comma stand more items or none. -/
inductive Items (item : List Lexeme → α → Prop) : List Lexeme → List α → Prop
  | none : Items item [] []
  | one {ws : List Lexeme} {x : α} : item ws x → Items item ws [x]
  | more {ws ws' : List Lexeme} {x : α} {xs : List α} :
      item ws x → Items item ws' xs → Items item (ws ++ .punct .comma :: ws') (x :: xs)

/-- `item | '[' [item {',' item} [',']] ']'` -/
inductive OneOrBracketed (item : List Lexeme → α → Prop) : List Lexeme → List α → Prop
  | one {ws : List Lexeme} {x : α} : item ws x → OneOrBracketed item ws [x]
  | bracketed {ws : List Lexeme} {xs : List α} : Items item ws xs →
      OneOrBracketed item (.punct .leftBracket :: (ws ++ [.punct .rightBracket])) xs

end

/-! ## Names and references -/

inductive SpellsIdent : List Lexeme → String → Prop
  | mk (x : String) : SpellsIdent [.ident x] x

inductive SpellsString : List Lexeme → String → Prop
  | mk (x : String) : SpellsString [.str x] x

/-- `name = id | str` -/
inductive SpellsName : List Lexeme → String → Prop
  | ident (x : String) : SpellsName [.ident x] x
  | str (x : String) : SpellsName [.str x] x

/-- `{'::' id}` -/
inductive SpellsSegments : List Lexeme → List String → Prop
  | none : SpellsSegments [] []
  | more (x : String) {ws : List Lexeme} {xs : List String} : SpellsSegments ws xs →
      SpellsSegments (.punct .doubleColon :: .ident x :: ws) (x :: xs)

/-- `path = id {'::' id}` -/
inductive SpellsPath : List Lexeme → Path → Prop
  | mk (x : String) {ws : List Lexeme} {xs : List String} : SpellsSegments ws xs →
      SpellsPath (.ident x :: ws) ⟨x :: xs⟩

/-- `aref = str | id | path '::' str` -/
inductive SpellsActionRef : List Lexeme → ActionRef → Prop
  | str (id : String) : SpellsActionRef [.str id] ⟨none, id⟩
  | ident (id : String) : SpellsActionRef [.ident id] ⟨none, id⟩
  | typed (id : String) {ws : List Lexeme} {p : Path} : SpellsPath ws p →
      SpellsActionRef (ws ++ [.punct .doubleColon, .str id]) ⟨some p, id⟩

/-- `'(' str ')'` -/
inductive SpellsValue : List Lexeme → String → Prop
  | mk (v : String) : SpellsValue [.punct .leftParen, .str v, .punct .rightParen] v

/-- `{'@' id ['(' str ')']}` -/
inductive SpellsAnnotations : List Lexeme → List Annotation → Prop
  | none : SpellsAnnotations [] []
  | more (key : String) {ws ws' : List Lexeme} {v : Option String} {as : List Annotation} :
      Optional SpellsValue ws v → SpellsAnnotations ws' as →
      SpellsAnnotations (.punct .atSign :: .ident key :: (ws ++ ws')) (⟨key, v⟩ :: as)

/-- The annotations of a node, no two of them with the same key. -/
structure SpellsAnn (ws : List Lexeme) (as : List Annotation) : Prop where
  annotations : SpellsAnnotations ws as
  distinct : (as.map Annotation.key).Nodup

/-! ## Types -/

/-- `['?']` -/
inductive SpellsPresence : List Lexeme → Bool → Prop
  | required : SpellsPresence [] true
  | optional : SpellsPresence [.punct .question] false

mutual

/-- `type = record | 'Set' '<' type '>' | path` -/
inductive SpellsType : List Lexeme → TypeExpr → Prop
  | path {ws : List Lexeme} {p : Path} : SpellsPath ws p → SpellsType ws (.path p)
  | set {ws : List Lexeme} {t : TypeExpr} : SpellsType ws t →
      SpellsType (.ident "Set" :: .punct .leftAngle :: (ws ++ [.punct .rightAngle])) (.set t)
  | record {ws : List Lexeme} {r : Record TypeExpr} : SpellsRecord ws r →
      SpellsType ws (.record r)

/-- `record = '{' [attr {',' attr} [',']] '}'`, no two attributes with the same name -/
inductive SpellsRecord : List Lexeme → Record TypeExpr → Prop
  | mk {ws : List Lexeme} {as : List (Attribute TypeExpr)} : Items SpellsAttribute ws as →
      (as.map Attribute.name).Nodup →
      SpellsRecord (.punct .leftBrace :: (ws ++ [.punct .rightBrace])) ⟨as, {}⟩

/-- `attr = ann name ['?'] ':' type` -/
inductive SpellsAttribute : List Lexeme → Attribute TypeExpr → Prop
  | mk {ws₁ ws₂ ws₃ ws₄ : List Lexeme} {annotations : List Annotation} {name : String}
      {required : Bool} {type : TypeExpr} : SpellsAnn ws₁ annotations → SpellsName ws₂ name →
      SpellsPresence ws₃ required → SpellsType ws₄ type →
      SpellsAttribute (ws₁ ++ ws₂ ++ ws₃ ++ .punct .colon :: ws₄)
        ⟨name, type, required, annotations, {}⟩

end

/-! ## Declarations -/

/-- `['='] record` -/
inductive SpellsShape : List Lexeme → Record TypeExpr → Prop
  | bare {ws : List Lexeme} {r : Record TypeExpr} : SpellsRecord ws r → SpellsShape ws r
  | equals {ws : List Lexeme} {r : Record TypeExpr} : SpellsRecord ws r →
      SpellsShape (.punct .equals :: ws) r

/-- One member of an appliesTo clause, with what it stands for. -/
inductive MemberClause
  | principals (refs : List Path)
  | resources (refs : List Path)
  | context (type : TypeExpr)

def MemberClause.member : MemberClause → Member
  | principals _ => .principal
  | resources _ => .resource
  | context _ => .context

/-- The clause with one member more. -/
def put (a : AppliesTo) : MemberClause → AppliesTo
  | .principals refs => { a with principals := some refs }
  | .resources refs => { a with resources := some refs }
  | .context type => { a with context := some type }

/-- `m = 'principal' ':' refs | 'resource' ':' refs | 'context' ':' type` -/
inductive SpellsMember : List Lexeme → MemberClause → Prop
  | principals {ws : List Lexeme} {ps : List Path} : OneOrBracketed SpellsPath ws ps →
      SpellsMember (.ident "principal" :: .punct .colon :: ws) (.principals ps)
  | resources {ws : List Lexeme} {rs : List Path} : OneOrBracketed SpellsPath ws rs →
      SpellsMember (.ident "resource" :: .punct .colon :: ws) (.resources rs)
  | context {ws : List Lexeme} {t : TypeExpr} : SpellsType ws t →
      SpellsMember (.ident "context" :: .punct .colon :: ws) (.context t)

/-- `'{' [m {',' m} [',']] '}'`, no member twice -/
inductive SpellsAppliesTo : List Lexeme → AppliesTo → Prop
  | mk {ws : List Lexeme} {ms : List MemberClause} : Items SpellsMember ws ms →
      (ms.map MemberClause.member).Nodup →
      SpellsAppliesTo (.punct .leftBrace :: (ws ++ [.punct .rightBrace])) (ms.foldl put {})

/-- `'{' '}'` -/
inductive SpellsNothing : List Lexeme → Unit → Prop
  | mk : SpellsNothing [.punct .leftBrace, .punct .rightBrace] ()

/-- A declaration behind its annotations. -/
inductive SpellsDecl (annotations : List Annotation) : List Lexeme → Decl → Prop
  /-- `'entity' id {',' id} ['in' refs] [['='] record] ['tags' type] ';'` -/
  | entity {ws₁ ws₂ ws₃ ws₄ : List Lexeme} {names : List String} {parents : Option (List Path)}
      {shape : Option (Record TypeExpr)} {tags : Option TypeExpr} :
      Commas SpellsIdent ws₁ names →
      Optional (AfterWord "in" (OneOrBracketed SpellsPath)) ws₂ parents →
      Optional SpellsShape ws₃ shape → Optional (AfterWord "tags" SpellsType) ws₄ tags →
      SpellsDecl annotations
        (.ident "entity" :: (ws₁ ++ ws₂ ++ ws₃ ++ ws₄ ++ [.punct .semicolon]))
        (.entity ⟨names, parents.getD [], shape, tags, annotations, {}⟩)
  /-- `'entity' id {',' id} 'enum' '[' str {',' str} [','] ']' ';'` -/
  | enum {ws₁ ws₂ : List Lexeme} {names values : List String} : Commas SpellsIdent ws₁ names →
      Items SpellsString ws₂ values → values ≠ [] →
      SpellsDecl annotations
        (.ident "entity" :: (ws₁ ++ .ident "enum" :: .punct .leftBracket ::
          (ws₂ ++ [.punct .rightBracket, .punct .semicolon])))
        (.enum ⟨names, values, annotations, {}⟩)
  /-- `'action' name {',' name} ['in' (aref | '[' [aref {',' aref} [',']] ']')]`
  `['appliesTo' '{' [m {',' m} [',']] '}'] ['attributes' '{' '}'] ';'` -/
  | action {ws₁ ws₂ ws₃ ws₄ : List Lexeme} {names : List String}
      {parents : Option (List ActionRef)} {appliesTo : Option AppliesTo} {nothing : Option Unit} :
      Commas SpellsName ws₁ names →
      Optional (AfterWord "in" (OneOrBracketed SpellsActionRef)) ws₂ parents →
      Optional (AfterWord "appliesTo" SpellsAppliesTo) ws₃ appliesTo →
      Optional (AfterWord "attributes" SpellsNothing) ws₄ nothing →
      SpellsDecl annotations
        (.ident "action" :: (ws₁ ++ ws₂ ++ ws₃ ++ ws₄ ++ [.punct .semicolon]))
        (.action ⟨names, parents.getD [], appliesTo, annotations, {}⟩)
  /-- `'type' id '=' type ';'`, the name not reserved -/
  | commonType (name : String) {ws : List Lexeme} {type : TypeExpr} :
      isReservedTypeName name = false → SpellsType ws type →
      SpellsDecl annotations
        (.ident "type" :: .ident name :: .punct .equals :: (ws ++ [.punct .semicolon]))
        (.commonType ⟨name, type, annotations, {}⟩)

/-! ## Blocks and files -/

/-- `{ann decl}` -/
inductive SpellsDecls : List Lexeme → List Decl → Prop
  | none : SpellsDecls [] []
  | more {ws₁ ws₂ ws₃ : List Lexeme} {annotations : List Annotation} {d : Decl} {ds : List Decl} :
      SpellsAnn ws₁ annotations → SpellsDecl annotations ws₂ d → SpellsDecls ws₃ ds →
      SpellsDecls (ws₁ ++ ws₂ ++ ws₃) (d :: ds)

/-- `ns = 'namespace' path '{' {ann decl} '}'`, behind the annotations of the block -/
inductive SpellsBlock (annotations : List Annotation) : List Lexeme → NamespaceBlock → Prop
  | mk {ws₁ ws₂ : List Lexeme} {p : Path} {ds : List Decl} : SpellsPath ws₁ p →
      SpellsDecls ws₂ ds →
      SpellsBlock annotations
        (.ident "namespace" :: (ws₁ ++ .punct .leftBrace :: (ws₂ ++ [.punct .rightBrace])))
        ⟨p, ds, annotations, {}⟩

/-- `ns | decl`, behind its annotations -/
inductive SpellsItem (annotations : List Annotation) : List Lexeme → Item → Prop
  | block {ws : List Lexeme} {b : NamespaceBlock} : SpellsBlock annotations ws b →
      SpellsItem annotations ws (.block b)
  | decl {ws : List Lexeme} {d : Decl} : SpellsDecl annotations ws d →
      SpellsItem annotations ws (.decl d)

/-- `schema = {ann (ns | decl)}` -/
inductive SpellsSchema : List Lexeme → Schema → Prop
  | none : SpellsSchema [] ⟨[], []⟩
  | more {ws₁ ws₂ ws₃ : List Lexeme} {annotations : List Annotation} {i : Item}
      {s : Schema} : SpellsAnn ws₁ annotations → SpellsItem annotations ws₂ i →
      SpellsSchema ws₃ s →
      SpellsSchema (ws₁ ++ ws₂ ++ ws₃) { s with items := i :: s.items }

end Grammar

end CedarSchema
