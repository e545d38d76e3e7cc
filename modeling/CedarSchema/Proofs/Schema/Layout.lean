import CedarSchema.Proofs.Token.Lexeme
import CedarSchema.Schema.Printer

/-
  The tokens of a layout. A layout is legible in front of some pieces if its lexemes are readable
  and none of them runs into what stands behind it. The text of a legible layout is read as its
  lexemes, each at the place where it stands (`ofCursor_textOf`).
-/

namespace CedarSchema

open Text

/-! ## What may stand side by side -/

/-- The place behind a piece. -/
def Position.behind (pos : Position) (p : Piece) : Position := pos.afterAll p.text.toList

namespace Piece

/-- Whether a piece can stand directly behind an identifier. -/
def separates : Piece → Bool
  | space | newline => true
  | lexeme (.punct _) => true
  | _ => false

/-- Whether a layout can stand directly behind an identifier. -/
def Breaks (ps : List Piece) : Prop := ∀ p ∈ ps.head?, p.separates = true

/-- Whether a lexeme can stand directly in front of a layout. Comments end their line, and a colon
has a space behind it. -/
def Meets (l : Lexeme) (ps : List Piece) : Prop :=
  match l with
  | .ident _ => Breaks ps
  | .comment _ => ps.head? = some newline
  | .punct .colon => ps.head? = some space
  | _ => True

/-- Whether the lexemes of a layout in front of the pieces `rest` are read one by one. -/
def Legible : List Piece → List Piece → Prop
  | [], _ => True
  | lexeme l :: ps, rest => l.Readable ∧ Meets l (ps ++ rest) ∧ Legible ps rest
  | _ :: ps, rest => Legible ps rest

section

variable {ps qs rest : List Piece}

theorem legible_append : Legible (ps ++ qs) rest ↔ Legible ps (qs ++ rest) ∧ Legible qs rest := by
  induction ps with
  | nil => simp [Legible]
  | cons p ps ih => cases p <;> simp [Legible, ih, and_assoc]

@[simp] theorem legible_nil : Legible [] rest := trivial

@[simp] theorem legible_space : Legible (space :: ps) rest ↔ Legible ps rest := Iff.rfl

@[simp] theorem legible_newline : Legible (newline :: ps) rest ↔ Legible ps rest := Iff.rfl

@[simp] theorem legible_indent {depth : Nat} :
    Legible (indent depth :: ps) rest ↔ Legible ps rest := Iff.rfl

@[simp] theorem legible_str {value : String} :
    Legible (str value :: ps) rest ↔ Legible ps rest := by
  simp [Legible, str, Lexeme.Readable, Meets]

@[simp] theorem legible_punct {p : Punct} (hp : p ≠ .colon) :
    Legible (punct p :: ps) rest ↔ Legible ps rest := by
  cases p <;> simp_all [Legible, punct, Lexeme.Readable, Meets]

@[simp] theorem legible_colon : Legible (punct .colon :: space :: ps) rest ↔ Legible ps rest := by
  simp [Legible, punct, Lexeme.Readable, Meets]

theorem legible_ident {name : String} :
    Legible (ident name :: ps) rest ↔ isIdent name = true ∧ Breaks (ps ++ rest) ∧ Legible ps rest :=
  Iff.rfl

@[simp] theorem legible_comment {text : String} :
    Legible (comment text :: newline :: ps) rest ↔ IsComment text ∧ Legible ps rest := by
  simp [Legible, comment, Lexeme.Readable, Meets]

@[simp] theorem breaks_nil : Breaks [] := by simp [Breaks]

@[simp] theorem breaks_space : Breaks (space :: ps) := by simp [Breaks, separates]

@[simp] theorem breaks_newline : Breaks (newline :: ps) := by simp [Breaks, separates]

@[simp] theorem breaks_punct {p : Punct} : Breaks (punct p :: ps) := by
  simp [Breaks, separates, punct]

end

/-! ## Reading a layout -/

/-- The tokens of a layout that begins at `pos`. -/
def tokens (pos : Position) : List Piece → TokenStream
  | [] => .eof pos
  | lexeme l :: ps => .token ⟨l, pos, pos.behind (lexeme l)⟩ (tokens (pos.behind (lexeme l)) ps)
  | p :: ps => tokens (pos.behind p) ps

theorem isIdentRest_punct (p : Punct) : ∀ c ∈ p.chars.head?, isIdentRest c = false := by
  cases p <;> simp [Punct.chars, isIdentRest, Char.isAlphanum]

theorem head?_toList_append {s t : String} (hs : s ≠ "") :
    (s ++ t).toList.head? = s.toList.head? := by
  obtain ⟨c, r, h⟩ := List.exists_cons_of_ne_nil (fun h => hs (String.toList_eq_nil_iff.1 h))
  rw [String.toList_append, h]
  rfl

theorem Breaks.head {ps : List Piece} (h : Breaks ps) :
    ∀ c ∈ (textOf ps).toList.head?, isIdentRest c = false := by
  cases ps with
  | nil => simp [textOf_nil]
  | cons p ps =>
    have hp := h p rfl
    rw [textOf_cons]
    cases p with
    | space =>
      rw [head?_toList_append (by decide)]
      rintro _ ⟨⟩
      rfl
    | newline =>
      rw [head?_toList_append (by decide)]
      rintro _ ⟨⟩
      rfl
    | indent depth => cases hp
    | lexeme l =>
      cases l with
      | punct p =>
        have hne : (lexeme (.punct p)).text ≠ "" := by cases p <;> decide
        rw [head?_toList_append hne]
        simpa [text, Lexeme.source, Lexeme.text, Punct.text] using isIdentRest_punct p
      | _ => cases hp

theorem Meets.endsBefore {l : Lexeme} {ps : List Piece} (h : Meets l ps) :
    l.EndsBefore (textOf ps).toList := by
  have head_of {p : Piece} (hp : ps.head? = some p) (hne : p.text ≠ "") :
      (textOf ps).toList.head? = p.text.toList.head? := by
    obtain ⟨qs, rfl⟩ := List.head?_eq_some_iff.1 hp
    rw [textOf_cons, head?_toList_append hne]
  cases l with
  | ident name => exact Breaks.head h
  | comment text =>
    intro c hc
    rw [head_of h (by decide)] at hc
    exact (Option.some.inj hc).symm
  | punct p =>
    cases p with
    | colon =>
      show (textOf ps).toList.head? ≠ some ':'
      rw [head_of h (by decide)]
      decide
    | _ => trivial
  | _ => trivial

theorem isBlank_of_mem_text {p : Piece} (hp : ∀ l, p ≠ lexeme l) :
    ∀ c ∈ p.text.toList, isBlank c = true := by
  cases p with
  | lexeme l => exact absurd rfl (hp l)
  | space => exact List.forall_mem_singleton.2 rfl
  | newline => exact List.forall_mem_singleton.2 rfl
  | indent depth =>
    intro c hc
    rw [text, String.toList_ofList] at hc
    rw [List.eq_of_mem_replicate hc]
    rfl

theorem ofCursor_blank {p : Piece} (hp : ∀ l, p ≠ lexeme l) (ps : List Piece) (pos : Position) :
    TokenStream.ofCursor ⟨(textOf (p :: ps)).toList, pos⟩ =
      .ofCursor ⟨(textOf ps).toList, pos.behind p⟩ := by
  rw [textOf_cons, String.toList_append]
  exact TokenStream.ofCursor_blanks (isBlank_of_mem_text hp) _ pos

/-- The text of a legible layout is read as its lexemes. -/
theorem ofCursor_textOf {ps : List Piece} (h : Legible ps []) (pos : Position) :
    TokenStream.ofCursor ⟨(textOf ps).toList, pos⟩ = tokens pos ps := by
  induction ps generalizing pos with
  | nil => exact TokenStream.ofCursor_nil pos
  | cons p ps ih =>
    cases p with
    | lexeme l =>
      obtain ⟨hl, hm, hps⟩ := h
      rw [List.append_nil] at hm
      rw [textOf_cons, String.toList_append, tokens, ← ih hps]
      exact TokenStream.ofCursor_source hl hm.endsBefore pos
    | space => rw [ofCursor_blank (by simp), tokens, ih h]; simp
    | newline => rw [ofCursor_blank (by simp), tokens, ih h]; simp
    | indent depth => rw [ofCursor_blank (by simp), tokens, ih h]; simp

end Piece

end CedarSchema
