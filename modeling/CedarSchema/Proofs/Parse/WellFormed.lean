import CedarSchema.Proofs.Parse.Comments
import CedarSchema.Proofs.Resolve.IllFormed
import CedarSchema.Proofs.Resolve.Plain

/-
  What holds of every tree that is read from a text: it can be written, no reference in it is one
  that text has no spelling for, and its comments are comments and stand where they are printed.
  What works on such trees need not look for reserved names, repeated attributes or empty paths, and
  resolution finds none of them (`wellFormed_of_parse`).
-/

namespace CedarSchema

/-! ## References that text can spell -/

mutual

/-- The type is spelled without a reference to an entity type and nothing else. -/
def TypeExpr.Textual : TypeExpr → Prop
  | .path _ => True
  | .entity _ => False
  | .set element => element.Textual
  | .record r => Record.Textual r
termination_by structural t => t

def Record.Textual : Record TypeExpr → Prop
  | ⟨attributes, _⟩ => TextualAttributes attributes
termination_by structural r => r

def TextualAttributes : List (Attribute TypeExpr) → Prop
  | [] => True
  | ⟨_, type, _, _, _⟩ :: rest => type.Textual ∧ TextualAttributes rest
termination_by structural attributes => attributes

end

mutual

theorem TypeExpr.textual_plain : (t : TypeExpr) → t.plain.Textual
  | .path _ => trivial
  | .entity _ => trivial
  | .set element => element.textual_plain
  | .record r => Record.textual_plain r
termination_by structural t => t

theorem Record.textual_plain : (r : Record TypeExpr) → Record.Textual (Record.plain r)
  | ⟨attributes, _⟩ => textual_plainAttributes attributes
termination_by structural r => r

theorem textual_plainAttributes : (attributes : List (Attribute TypeExpr)) →
    TextualAttributes (plainAttributes attributes)
  | [] => trivial
  | ⟨_, type, _, _, _⟩ :: rest => ⟨type.textual_plain, textual_plainAttributes rest⟩
termination_by structural attributes => attributes

end

theorem Decl.textual_of_plain (d : Decl) : ∀ type ∈ d.plain.types, type.Textual := by
  cases d with
  | entity d =>
    refine List.forall_mem_append.2 ⟨fun type h => ?_, fun type h => ?_⟩
    · obtain ⟨r, hr, rfl⟩ := Option.map_eq_some_iff.1 (Option.mem_toList.1 h)
      obtain ⟨r, -, rfl⟩ := Option.map_eq_some_iff.1 hr
      exact Record.textual_plain r
    · obtain ⟨type, -, rfl⟩ := Option.map_eq_some_iff.1 (Option.mem_toList.1 h)
      exact type.textual_plain
  | enum d => exact List.forall_mem_nil _
  | action d =>
    intro type h
    obtain ⟨a, ha, htype⟩ := Option.bind_eq_some_iff.1 (Option.mem_toList.1 h)
    obtain ⟨a, -, rfl⟩ := Option.map_eq_some_iff.1 ha
    obtain ⟨type, -, rfl⟩ := Option.map_eq_some_iff.1 htype
    exact type.textual_plain
  | commonType d =>
    intro type h
    rw [List.mem_singleton.1 h]
    exact d.type.textual_plain

/-! ## Comments -/

/-- The comments among the tokens of a text are read as themselves. -/
theorem isComment_of_mem_commentsOf {text : String} {tokens : List Token}
    (h : tokenize text = .ok tokens) : ∀ c ∈ commentsOf tokens, IsComment c := by
  have hremarks (stream : TokenStream) (hr : stream.Readable) :
      ∀ c ∈ stream.remarks, IsComment c := by
    induction stream with
    | eof pos => exact nofun
    | failed pos e => exact nofun
    | token t rest ih =>
      obtain ⟨ht, hrest⟩ := hr
      intro c hc
      obtain hc | hc := Multiset.mem_add.1 hc
      · cases hl : t.lexeme with
        | comment text =>
          rw [hl] at hc ht
          rw [Multiset.mem_singleton.1 hc]
          exact ht
        | _ =>
          rw [hl] at hc
          cases hc
      · exact ih hrest c hc
  have hreadable := TokenStream.readable_ofCursor (.ofText text)
  obtain ⟨-, hcomments, -⟩ := (TokenStream.ends_toExcept hreadable).of_ok h
  rw [hcomments]
  exact hremarks _ hreadable

/-! ## Trees -/

namespace Schema

/-- What holds of a tree that is read from a text. -/
structure WellFormed (s : Schema) : Prop where
  /-- Node by node: names and paths, what may not be empty, reserved or repeated, and the places of
  comments. -/
  writable : s.Writable
  textual : ∀ d ∈ s.declarations, ∀ type ∈ d.decl.types, type.Textual
  /-- Every comment is read as itself and nothing else. -/
  comments : ∀ text ∈ s.allComments, IsComment text
  /-- Printing leaves out no comment. -/
  printed : ∃ tokens, tokenize s.format = .ok tokens ∧ commentsOf tokens = s.allComments

theorem textual_of_plain_eq {s : Schema} (h : s.plain = s) :
    ∀ d ∈ s.declarations, ∀ type ∈ d.decl.types, type.Textual := by
  intro d hd
  rw [← h, declarations_plain] at hd
  obtain ⟨d, -, rfl⟩ := List.mem_map.1 hd
  exact d.decl.textual_of_plain

/-- Every tree that is read is well formed, and never fails to resolve for a reserved name or for an
attribute that is declared twice. -/
theorem wellFormed_of_parse {text : String} {s : Schema} (h : parse text = .ok s) :
    s.WellFormed ∧ (∀ name, s.resolve ≠ .error (.reservedName name)) ∧
      ∀ name, s.resolve ≠ .error (.duplicate .field name) := by
  obtain ⟨hw, hplain⟩ := (written_of_parse text).of_ok h
  obtain ⟨tokens, htokens, hcomments⟩ := (holds_comments text).of_ok h
  refine ⟨⟨hw, textual_of_plain_eq hplain, ?_, ?_⟩, ?_, ?_⟩
  · rw [← hcomments]
    exact isComment_of_mem_commentsOf htokens
  · exact hw.exists_tokenize_format
  · exact fun name hname => hw.ends_resolve.of_error hname trivial
  · exact fun name hname => hw.ends_resolve.of_error hname trivial

/-- A tree with a record inside a record, an annotation, and comments in two places. -/
theorem wellFormed_of_parse_nested :
    let text := "@a entity E\x7bp:\x7bp:N::T\x7d,// c\n\x7d;namespace N \x7btype T=Long;/* d */\x7d"
    ∃ s, parse text = .ok s ∧ s.WellFormed ∧ (∀ name, s.resolve ≠ .error (.reservedName name)) ∧
      ∀ name, s.resolve ≠ .error (.duplicate .field name) := by
  intro text
  let inner : Attribute TypeExpr := { name := "p", type := .path ⟨["N", "T"]⟩ }
  let outer : Attribute TypeExpr :=
    { name := "p", type := .record ⟨[inner], {}⟩, comments := { inline := some "// c" } }
  let e : EntityDecl :=
    { names := ["E"], shape := some ⟨[outer], {}⟩, annotations := [⟨"a", none⟩] }
  let t : CommonTypeDecl :=
    { name := "T", type := .path ⟨["Long"]⟩, comments := { inline := some "/* d */" } }
  let n : NamespaceBlock := { path := ⟨["N"]⟩, decls := [.commonType t] }
  have h : parse text = .ok ⟨[.decl (.entity e), .block n], []⟩ := by
    cbv
  exact ⟨_, h, wellFormed_of_parse h⟩

end Schema

end CedarSchema
