import CedarSchema.Proofs.Parse.References

/-
  Reading back types. A path is read back where nothing behind it could continue it; a record is
  read back anywhere, for it ends with a brace. The induction is on the type that was written, and
  for the attributes of a record on the list of them, with the names before them as what may not
  come again.
-/

namespace CedarSchema

open Piece ParseState

section

variable {rest : List Piece} {s : ParseState}

/-! ## Braces -/

theorem Position.behind_indent_zero (pos : Position) : pos.behind (indent 0) = pos := by
  simp [Position.behind, Piece.text, Position.afterAll_nil]

theorem first_braced {depth : Nat} {inner : List Piece} :
    first (braced depth inner ++ rest) = .punct .leftBrace := by
  rw [braced]
  split <;> rfl

/-- Behind the opening brace stands what is between the braces, and the closing brace on a line of
its own or, where nothing is between, directly behind. -/
theorem reads_openBrace {depth : Nat} {inner : List Piece}
    (hs : Ahead (braced depth inner ++ rest) s) :
    Reads (fun _ => False) (s.expect .leftBrace) fun _ s' =>
      ∃ d, Ahead (inner ++ indent d :: punct .rightBrace :: rest) s' := by
  rw [braced] at hs
  split at hs
  · rename_i h
    rw [List.isEmpty_iff.1 h]
    refine hs.reads_expect.imp ?_
    rintro _ s' ⟨hfit, pos, hs⟩
    refine ⟨0, hfit.indent, pos, pos, ?_⟩
    show s' = facing pos (pos.behind (indent 0)) [] (punct .rightBrace :: rest)
    rw [Position.behind_indent_zero]
    exact hs
  · have hs : Ahead (punct .leftBrace :: newline ::
        (inner ++ indent depth :: punct .rightBrace :: rest)) s := by
      simpa using hs
    exact hs.reads_expect.imp fun _ _ hs => ⟨depth, hs.ahead.newline⟩

theorem yields_recordEnd {wanted : List Wanted} {d depth : Nat} {remaining : List String}
    (hs : Ahead (commentLines depth remaining ++ indent d :: punct .rightBrace :: rest) s) :
    Yields (recordEnd s wanted) ⟨[], { remaining }⟩ rest := by
  obtain ⟨hremaining, hs⟩ := hs.takePending_comments (by simp)
  rw [recordEnd, hremaining]
  exact Reads.bind hs.indent.reads_expectFor fun _ s _ hs => ⟨rfl, hs⟩

/-! ## Attributes -/

theorem reads_presence {required : Bool}
    (hs : Behind (presenceMark required ++ punct .colon :: rest) s) :
    Reads (fun _ => False) (presence s) fun r s' =>
      r = required ∧ Behind (punct .colon :: rest) s' := by
  refine Reads.map ?_
  cases required with
  | true =>
    refine reads_optional (fun h => ?_) fun _ => ⟨rfl, hs⟩
    rw [hs.ahead.lookahead_eq] at h
    simp [presenceMark] at h
  | false =>
    refine reads_optional (fun _ => ?_) fun h => ?_
    · exact hs.ahead.reads_expect.imp fun _ _ hs => ⟨rfl, hs⟩
    · rw [hs.ahead.lookahead_eq] at h
      simp [presenceMark] at h

/-! ## Types -/

theorem Path.Writable.first_layout {p : Path} (h : p.Writable) :
    ∃ x, first (p.layout ++ rest) = .ident x := by
  obtain ⟨segments⟩ := p
  obtain ⟨x, xs, rfl⟩ := List.exists_cons_of_ne_nil h.nonempty
  exact ⟨x, by simp [Path.layout_cons]⟩

theorem yields_pathType {p : Path} (h : p.Writable) (hr : Stops rest)
    (hs : Ahead (p.layout ++ rest) s) : Yields (TypeExpr.read s) (.path p) rest := by
  obtain ⟨x, hx⟩ := h.first_layout
  have hl : s.lookahead = .ident x := hs.lookahead_eq.trans hx
  rw [TypeExpr.read]
  simp only [hl]
  refine Reads.bind (Path.yields h hr.1 hs) ?_
  rintro _ s _ ⟨hp, hs⟩
  rw [hp]
  split
  · refine reads_eat (fun h => ?_) fun _ => ⟨rfl, hs⟩
    rw [hs.ahead.lookahead_eq] at h
    exact absurd h hr.2
  · exact ⟨rfl, hs⟩

theorem writable_set : Path.Writable ⟨["Set"]⟩ := ⟨by simp, by simp; decide⟩

theorem Record.first_layout {depth : Nat} (r : Record TypeExpr) :
    first (Record.layout depth r ++ rest) = .punct .leftBrace := by
  obtain ⟨attributes, comments⟩ := r
  exact first_braced

theorem first_name {name : String} (p : Punct) : first (Piece.name name :: rest) ≠ .punct p := by
  rw [Piece.name]
  split <;> simp

theorem leading_name {name : String} : leading (Piece.name name :: rest) = [] := by
  rw [Piece.name]
  split <;> rfl

/-- A preamble begins with an at sign or with what stands behind it. -/
theorem first_preamble {depth : Nat} {c : Comments} {annotations : List Annotation} {l : Lexeme}
    (hl : l ≠ .punct .atSign) (hr : first rest ≠ l) :
    first (preamble depth c annotations ++ rest) ≠ l := by
  rw [preamble, List.append_assoc, first_commentLines]
  cases annotations with
  | nil => exact hr
  | cons a as => exact Ne.symm hl

end

mutual

theorem TypeExpr.yields (depth : Nat) : (t : TypeExpr) → t.Writable → (rest : List Piece) →
    (s : ParseState) → Stops rest → Ahead (t.layout depth ++ rest) s →
      Yields (TypeExpr.read s) t.plain rest
  | .path p, h, rest, s, hr, hs => yields_pathType h hr hs
  | .entity p, h, rest, s, hr, hs => yields_pathType h hr hs
  | .set element, h, rest, s, hr, hs => by
    have hs : Ahead (ident "Set" :: punct .leftAngle ::
        (element.layout depth ++ punct .rightAngle :: rest)) s := by
      simpa [TypeExpr.layout] using hs
    have hl : s.lookahead = .ident "Set" := hs.lookahead_eq
    rw [TypeExpr.read]
    simp only [hl]
    have hset : Yields (Path.read s) ⟨["Set"]⟩ _ :=
      Path.yields writable_set (by simp) hs
    refine Reads.bind hset fun _ s _ ⟨hp, hs⟩ => ?_
    rw [hp, if_pos rfl]
    refine reads_eat (fun _ => ?_) fun h => absurd hs.ahead.lookahead_eq h
    refine Reads.bind hs.ahead.reads_expect fun _ s _ hs => ?_
    have helement := TypeExpr.yields depth element h _ s (by simp [Stops]) hs.ahead
    refine Reads.bind (Reads.below _ helement) fun _ s _ ⟨he, hs⟩ => ?_
    refine Reads.bind (Reads.below _ hs.ahead.reads_expect) fun _ s _ hs => ?_
    exact ⟨by rw [he, TypeExpr.plain], hs⟩
  | .record r, h, rest, s, _, hs => by
    have hl : s.lookahead = .punct .leftBrace := hs.lookahead_eq.trans (Record.first_layout r)
    rw [TypeExpr.read]
    simp only [hl]
    refine Reads.map ((Record.yields depth r h rest s hs).imp fun _ _ ⟨hr, hs⟩ => ?_)
    exact ⟨by rw [hr, TypeExpr.plain], hs⟩
termination_by t => sizeOf t

theorem Record.yields (depth : Nat) : (r : Record TypeExpr) → Record.Writable r →
    (rest : List Piece) → (s : ParseState) → Ahead (Record.layout depth r ++ rest) s →
      Yields (Record.read s) (Record.plain r) rest
  | ⟨attributes, comments⟩, h, rest, s, hs => by
    obtain ⟨ha, hnodup, hc⟩ := h
    rw [Record.read]
    refine Reads.bind (reads_openBrace hs) fun _ s _ ⟨d, hs⟩ => ?_
    rw [List.append_assoc] at hs
    have htail := yields_recordTail (depth + 1) (depth + 1) d comments.remaining attributes ha []
      hnodup (by simp) rest s hs
    refine Reads.below _ (htail.imp fun _ _ ⟨hr, hs⟩ => ⟨?_, hs⟩)
    rw [hr, Record.plain, ← hc.eq]
termination_by r => sizeOf r

theorem yields_recordTail (depth d d' : Nat) (remaining : List String) :
    (attributes : List (Attribute TypeExpr)) → WritableAttributes attributes →
      (names : List String) → (attributes.map Attribute.name).Nodup →
      (∀ a ∈ attributes, a.name ∉ names) → (rest : List Piece) → (s : ParseState) →
      Ahead (attributeLines depth attributes ++
        (commentLines d remaining ++ indent d' :: punct .rightBrace :: rest)) s →
      Yields (recordTail names s) ⟨plainAttributes attributes, { remaining }⟩ rest
  | [], _, names, _, _, rest, s, hs => by
    have hl : s.isAt .rightBrace = true := isAt_iff.2 (hs.lookahead_eq.trans first_commentLines)
    rw [recordTail, if_pos hl]
    exact yields_recordEnd hs
  | ⟨n, type, required, annotations, comments⟩ :: others, h, names, hnodup, hnames, rest, s,
      hs => by
    obtain ⟨⟨ht, ha, hc⟩, hothers⟩ := h
    obtain ⟨hname, hnames⟩ := List.forall_mem_cons.1 hnames
    obtain ⟨hnew, hnodup⟩ := List.nodup_cons.1 hnodup
    have hs : Ahead (preamble depth comments annotations ++ indent depth :: Piece.name n ::
        (presenceMark required ++ punct .colon :: .space :: (type.layout depth ++
          punct .comma :: (lineEnd comments ++ (attributeLines depth others ++
            (commentLines d remaining ++ indent d' :: punct .rightBrace :: rest)))))) s := by
      simpa [attributeLines] using hs
    have hl : ¬s.isAt .rightBrace = true := by
      rw [isAt_iff, hs.lookahead_eq]
      exact first_preamble (by simp) (first_name _)
    rw [recordTail, if_neg hl]
    have hpreamble := reads_preamble ha (leading_indent.trans leading_name) first_name hs
    refine Reads.bind hpreamble fun _ s _ ⟨hp, hs⟩ => ?_
    refine Reads.bind (Reads.behind _ hs.indent.reads_name) fun _ s _ ⟨hn, hs⟩ => ?_
    rw [hn]
    refine Reads.guarded (fun h => absurd (List.contains_iff_mem.1 h) hname) fun _ => ?_
    refine Reads.bind (Reads.upTo _ (reads_presence hs)) fun _ s _ ⟨hq, hs⟩ => ?_
    refine Reads.bind (Reads.below _ hs.ahead.reads_expect) fun _ s _ hs => ?_
    have htype := TypeExpr.yields depth type ht _ s (by simp [Stops]) hs.ahead.space
    refine Reads.bind (Reads.below _ htype) fun _ s _ ⟨ht, hs⟩ => ?_
    refine reads_eat (fun _ => ?_) fun h => absurd hs.ahead.lookahead_eq h
    refine Reads.bind hs.ahead.reads_expect fun _ s _ hs => ?_
    obtain ⟨hinline, hs⟩ := hs.takeInline_lineEnd
    have hnames : ∀ a ∈ others, a.name ∉ n :: names := by
      intro a ha hmem
      rcases List.mem_cons.1 hmem with heq | hmem
      · exact hnew (List.mem_map.2 ⟨a, ha, heq⟩)
      · exact hnames a ha hmem
    have htail := yields_recordTail depth d d' remaining others hothers (n :: names) hnodup hnames
      rest _ hs
    refine Reads.bind (Reads.below _ htail) fun _ s _ ⟨hr, hs⟩ => ⟨?_, hs⟩
    rw [hr, hp, hq, ht, nodeComments, hinline, plainAttributes, ← hc.eq]
termination_by attributes => sizeOf attributes

end

end CedarSchema
