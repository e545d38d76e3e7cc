import CedarSchema.Proofs.Parse.TypeExpr

/-
  Reading back declarations, namespace blocks and files. A declaration is read clause by clause;
  a clause that is absent is passed over because what stands in its place begins a later one. The
  text of a writable schema is read as that schema, up to the references that text cannot tell
  apart (`parse_layout`).
-/

namespace CedarSchema

open Piece ParseState

section

variable {depth : Nat} {rest : List Piece} {s : ParseState}

theorem reads_declEnd {c : Comments} {wanted : List Wanted} (hc : c.AtNode)
    (hs : Ahead (punct .semicolon :: (lineEnd c ++ rest)) s) :
    Reads (fun _ => False) (declEnd c.before s wanted) fun x s' => x = c ∧ Ahead rest s' := by
  refine Reads.bind hs.reads_expectFor fun _ s _ hs => ?_
  obtain ⟨hinline, hs⟩ := hs.takeInline_lineEnd
  refine Reads.pure ⟨?_, hs⟩
  rw [nodeComments, hinline, ← hc.eq]

/-! ## Entity types -/

/-- The layout of the parents of an entity type. -/
def parentLayout (parents : List Path) : List Piece :=
  if parents.isEmpty then [] else [space, ident "in", space] ++ pathList parents

/-- The layout of the shape of an entity type. -/
def shapeLayout (depth : Nat) : Option (Record TypeExpr) → List Piece
  | some r => space :: r.layout depth
  | none => []

/-- The layout of the tags of an entity type. -/
def tagsLayout (depth : Nat) : Option TypeExpr → List Piece
  | some t => [space, ident "tags", space] ++ t.layout depth
  | none => []

theorem EntityDecl.layout_eq (d : EntityDecl) :
    d.layout depth = ident "entity" :: space :: (commas (d.names.map fun n => [ident n]) ++
      (parentLayout d.parents ++ (shapeLayout depth d.shape ++ tagsLayout depth d.tags))) := by
  rw [← List.append_assoc, ← List.append_assoc]
  rfl

theorem reads_parentClause {parents : List Path} (hp : ∀ p ∈ parents, p.Writable)
    (hr : first rest ≠ .ident "in") (hs : Behind (parentLayout parents ++ rest) s) :
    Reads (fun _ => False) (parentClause s) fun ps s' =>
      ps.getD [] = parents ∧ Behind rest s' := by
  cases parents with
  | nil =>
    refine reads_optional (fun h => ?_) fun _ => ⟨rfl, hs⟩
    rw [hs.ahead.lookahead_eq, List.mem_singleton] at h
    exact absurd h hr
  | cons p ps =>
    refine reads_optional (fun _ => ?_) fun h => ?_
    · refine reads_afterWord hs.ahead.space.reads_expectWord fun s hs => ?_
      exact (yields_pathRefs hp hs.ahead.space).imp fun _ _ ⟨h, hs⟩ => ⟨h, hs⟩
    · rw [hs.ahead.lookahead_eq] at h
      exact absurd (List.mem_singleton.2 rfl) h

theorem reads_shapeClause {shape : Option (Record TypeExpr)}
    (h : ∀ r ∈ shape, Record.Writable r) (he : first rest ≠ .punct .equals)
    (hb : first rest ≠ .punct .leftBrace) (hs : Behind (shapeLayout depth shape ++ rest) s) :
    Yields (shapeClause s) (shape.map Record.plain) rest := by
  cases shape with
  | none =>
    refine reads_optional (fun h => ?_) fun _ => ⟨rfl, hs⟩
    rw [hs.ahead.lookahead_eq] at h
    simp [shapeLayout, he, hb] at h
  | some r =>
    have hs := hs.ahead.space
    have hl : s.lookahead = .punct .leftBrace := hs.lookahead_eq.trans (Record.first_layout r)
    refine reads_optional (fun _ => ?_) fun h => ?_
    · rw [shapeRecord]
      refine reads_eat (fun h => ?_) fun _ => ?_
      · rw [hl] at h
        cases h
      · have hr := Record.yields depth r (h r rfl) rest s hs
        exact hr.imp fun _ _ ⟨h, hs⟩ => ⟨by rw [h]; rfl, hs⟩
    · rw [hl] at h
      simp at h

theorem reads_tagsClause {tags : Option TypeExpr} (h : ∀ t ∈ tags, t.Writable) (hr : Stops rest)
    (ht : first rest ≠ .ident "tags") (hs : Behind (tagsLayout depth tags ++ rest) s) :
    Yields (tagsClause s) (tags.map TypeExpr.plain) rest := by
  cases tags with
  | none =>
    refine reads_optional (fun h => ?_) fun _ => ⟨rfl, hs⟩
    rw [hs.ahead.lookahead_eq, List.mem_singleton] at h
    exact absurd h ht
  | some t =>
    refine reads_optional (fun _ => ?_) fun h => ?_
    · refine reads_afterWord hs.ahead.space.reads_expectWord fun s hs => ?_
      have ht := TypeExpr.yields depth t (h t rfl) rest s hr hs.ahead.space
      exact ht.imp fun _ _ ⟨h, hs⟩ => ⟨by rw [h]; rfl, hs⟩
    · rw [hs.ahead.lookahead_eq] at h
      exact absurd (List.mem_singleton.2 rfl) h

theorem first_tagsLayout {tags : Option TypeExpr} {ls : List Lexeme} (h : first rest ∈ ls) :
    first (tagsLayout depth tags ++ rest) ∈ .ident "tags" :: ls := by
  cases tags with
  | none => exact List.mem_cons_of_mem _ h
  | some t => exact List.mem_cons_self

theorem first_shapeLayout {shape : Option (Record TypeExpr)} {ls : List Lexeme}
    (h : first rest ∈ ls) : first (shapeLayout depth shape ++ rest) ∈ .punct .leftBrace :: ls := by
  cases shape with
  | none => exact List.mem_cons_of_mem _ h
  | some r => exact List.mem_cons.2 (.inl (Record.first_layout r))

theorem first_parentLayout {parents : List Path} {ls : List Lexeme} (h : first rest ∈ ls) :
    first (parentLayout parents ++ rest) ∈ .ident "in" :: ls := by
  cases parents with
  | nil => exact List.mem_cons_of_mem _ h
  | cons p ps => exact List.mem_cons_self

theorem EntityDecl.reads {d : EntityDecl} (h : d.Writable) (hc : d.comments.AtNode)
    (hs : Ahead (d.layout depth ++ punct .semicolon :: (lineEnd d.comments ++ rest)) s) :
    Reads (fun _ => False) (entityDecl ⟨d.comments.before, d.annotations⟩ s) fun x s' =>
      x = .entity d.plain ∧ Ahead rest s' := by
  let tail := punct .semicolon :: (lineEnd d.comments ++ rest)
  have hs : Ahead (ident "entity" :: space :: (commas (d.names.map fun n => [ident n]) ++
      (parentLayout d.parents ++ (shapeLayout depth d.shape ++
        (tagsLayout depth d.tags ++ tail))))) s := by
    simpa [EntityDecl.layout_eq] using hs
  have htail : first tail ∈ [.punct .semicolon] := List.mem_singleton.2 rfl
  have htags := @first_tagsLayout depth tail d.tags _ htail
  have hshape := @first_shapeLayout depth _ d.shape _ htags
  have hparents := @first_parentLayout _ d.parents _ hshape
  have hnames := reads_afterWord hs.reads_expectWord fun s hs =>
    yields_commaSeparated h.names (fun n _ => readsItem_ident n)
      ⟨ne_of_mem_of_not_mem hparents (by simp), ne_of_mem_of_not_mem hparents (by simp)⟩
      (ne_of_mem_of_not_mem hparents (by simp)) hs.ahead.space
  rw [entityDecl]
  refine Reads.bind hnames fun _ s _ ⟨hnames, hs⟩ => ?_
  refine reads_eatWord (fun h => ?_) fun _ => ?_
  · rw [hs.ahead.lookahead_eq] at h
    exact absurd h (ne_of_mem_of_not_mem hparents (by simp))
  have hin := reads_parentClause h.parents (ne_of_mem_of_not_mem hshape (by simp)) hs
  refine Reads.bind (Reads.upTo _ hin) fun _ s _ ⟨hps, hs⟩ => ?_
  have hbraces := reads_shapeClause h.shape (ne_of_mem_of_not_mem htags (by simp))
    (ne_of_mem_of_not_mem htags (by simp)) hs
  refine Reads.bind (Reads.upTo _ hbraces) fun _ s _ ⟨hr, hs⟩ => ?_
  have htypes := reads_tagsClause h.tags (by simp [Stops, tail]) (by simp [tail]) hs
  refine Reads.bind (Reads.upTo _ htypes) fun _ s _ ⟨ht, hs⟩ => ?_
  refine Reads.bind (Reads.below _ (reads_declEnd hc hs.ahead)) fun _ s _ ⟨hcs, hs⟩ => ?_
  exact ⟨by rw [hnames, hps, hr, ht, hcs]; rfl, hs⟩

theorem yields_enumValues {values : List String} (hne : values ≠ [])
    (hs : Ahead (bracketed (values.map fun v => [str v]) ++ rest) s) :
    Yields (enumValues s) values rest := by
  refine Reads.bind (yields_stringList hs) fun vs s _ ⟨hvs, hs⟩ => ?_
  have hv : ¬vs.isEmpty = true := by
    rw [hvs, List.isEmpty_iff]
    exact hne
  rw [if_neg hv]
  exact ⟨hvs, hs⟩

theorem EnumDecl.reads {d : EnumDecl} (h : d.Writable) (hc : d.comments.AtNode)
    (hs : Ahead (d.layout ++ punct .semicolon :: (lineEnd d.comments ++ rest)) s) :
    Reads (fun _ => False) (entityDecl ⟨d.comments.before, d.annotations⟩ s) fun x s' =>
      x = .enum d ∧ Ahead rest s' := by
  have hs : Ahead (ident "entity" :: space :: (commas (d.names.map fun n => [ident n]) ++
      (space :: ident "enum" :: space :: (bracketed (d.values.map fun v => [str v]) ++
        punct .semicolon :: (lineEnd d.comments ++ rest))))) s := by
    simpa [EnumDecl.layout] using hs
  have hnames := reads_afterWord hs.reads_expectWord fun s hs =>
    yields_commaSeparated h.names (fun n _ => readsItem_ident n) (by simp [Stops]) (by simp)
      hs.ahead.space
  rw [entityDecl]
  refine Reads.bind hnames ?_
  rintro _ s _ ⟨hnames, hs⟩
  refine reads_eatWord (fun _ => ?_) fun h => absurd hs.ahead.lookahead_eq h
  refine Reads.bind hs.ahead.space.reads_expectWord fun _ s _ hs => ?_
  have hvalues := yields_enumValues h.values hs.ahead.space
  refine Reads.bind (Reads.below _ hvalues) ?_
  rintro _ s _ ⟨hvs, hs⟩
  refine Reads.bind (Reads.below _ (reads_declEnd hc hs.ahead)) ?_
  rintro _ s _ ⟨hcs, hs⟩
  exact ⟨by rw [hnames, hvs, hcs], hs⟩

/-! ## Actions -/

/-- The layout of the parents of an action. -/
def actionParentLayout (parents : List ActionRef) : List Piece :=
  if parents.isEmpty then []
  else [space, ident "in", space] ++ bracketed (parents.map ActionRef.layout)

/-- The layout of what an action applies to. -/
def appliesToLayout (depth : Nat) : Option AppliesTo → List Piece
  | some a => [space, ident "appliesTo", space] ++ a.layout depth
  | none => []

theorem ActionDecl.layout_eq (d : ActionDecl) :
    d.layout depth = ident "action" :: space :: (commas (d.names.map fun n => [Piece.name n]) ++
      (actionParentLayout d.parents ++ appliesToLayout depth d.appliesTo)) := by
  rw [← List.append_assoc]
  rfl

theorem reads_actionParents {parents : List ActionRef} (hp : ∀ p ∈ parents, p.Writable)
    (hr : first rest ≠ .ident "in") (hs : Behind (actionParentLayout parents ++ rest) s) :
    Yields (actionParents s) parents rest := by
  refine Reads.map ?_
  cases parents with
  | nil =>
    refine reads_optional (fun h => ?_) fun _ => ⟨rfl, hs⟩
    rw [hs.ahead.lookahead_eq, List.mem_singleton] at h
    exact absurd h hr
  | cons p ps =>
    refine reads_optional (fun _ => ?_) fun h => ?_
    · refine reads_afterWord hs.ahead.space.reads_expectWord fun s hs => ?_
      exact yields_oneOrBracketed (fun r hr => (hp r hr).readsItem) hs.ahead.space
    · rw [hs.ahead.lookahead_eq] at h
      exact absurd (List.mem_singleton.2 rfl) h

theorem Member.ofLexeme_word (m : Member) : Member.ofLexeme (.ident m.word) = some m := by
  cases m <;> rfl

/-- A member line is read back if what the member stands for is, and the lines behind it are. -/
theorem reads_clauseLine {a b : AppliesTo} {m : Member} {value : List Piece}
    {P : AppliesTo → ParseState → Prop} (hm : a.has m = false)
    (hvalue : ∀ rest s, Stops rest → Ahead (value ++ rest) s → Yields (a.readMember m s) b rest)
    (hrest : ∀ s, Ahead rest s → Reads (fun _ => False) (b.readTail s) P)
    (hs : Ahead (clauseLine depth m.word value ++ rest) s) :
    Reads (fun _ => False) (a.readTail s) P := by
  have hs : Ahead (ident m.word :: punct .colon :: space :: (value ++
      punct .comma :: newline :: rest)) s := by
    simpa [clauseLine] using hs.indent
  have hl : Member.ofLexeme s.lookahead = some m := by
    rw [hs.lookahead_eq]
    exact m.ofLexeme_word
  rw [AppliesTo.readTail]
  simp only [hl]
  refine Reads.guarded (fun h => ?_) fun _ => ?_
  · rw [hm] at h
    cases h
  refine Reads.bind hs.reads_expectWord fun _ s _ hs => ?_
  refine Reads.bind (Reads.below _ hs.ahead.reads_expect) fun _ s _ hs => ?_
  have hvalue := hvalue _ s (by simp [Stops]) hs.ahead.space
  refine Reads.bind (Reads.below _ hvalue) fun _ s _ ⟨ha, hs⟩ => ?_
  rw [ha]
  refine reads_eat (fun _ => ?_) fun h => absurd hs.ahead.lookahead_eq h
  refine Reads.bind hs.ahead.reads_expect fun _ s _ hs => ?_
  exact Reads.below _ (hrest s hs.ahead.newline)

/-- The line of a member that may be absent. -/
def memberLine (depth : Nat) (m : Member) : Option (List Piece) → List Piece
  | some value => clauseLine depth m.word value
  | none => []

theorem AppliesTo.layout_eq (a : AppliesTo) :
    a.layout depth = braced depth (memberLine (depth + 1) .principal (a.principals.map pathList) ++
      (memberLine (depth + 1) .resource (a.resources.map pathList) ++
        (memberLine (depth + 1) .context (a.context.map (TypeExpr.layout (depth + 1))) ++
          commentLines (depth + 1) a.comments.remaining))) := by
  obtain ⟨principals, resources, context, comments⟩ := a
  cases principals <;> cases resources <;> cases context <;>
    simp [AppliesTo.layout, memberLine, Member.word]

/-- A member that may be absent is read back if what it stands for is read back as `f` has it. -/
theorem reads_memberLine {β : Type} {a : AppliesTo} {m : Member} {value : Option β}
    {layout : β → List Piece} {f : β → β} {g : Option β → AppliesTo}
    {read : (s : ParseState) → Except ParseError (Reading s.left β)}
    {P : AppliesTo → ParseState → Prop} (hm : a.has m = false) (hnone : g none = a)
    (hg : ∀ s, a.readMember m s = Reading.map (fun x => g (some x)) <$> read s)
    (hvalue : ∀ x ∈ value, ∀ rest s, Stops rest → Ahead (layout x ++ rest) s →
      Yields (read s) (f x) rest)
    (hrest : ∀ s, Ahead rest s → Reads (fun _ => False) ((g (value.map f)).readTail s) P)
    (hs : Ahead (memberLine depth m (value.map layout) ++ rest) s) :
    Reads (fun _ => False) (a.readTail s) P := by
  cases value with
  | none =>
    rw [← hnone]
    exact hrest s hs
  | some x =>
    refine reads_clauseLine hm (fun rest s hr hs => ?_) hrest hs
    rw [hg]
    exact Reads.map ((hvalue x rfl rest s hr hs).imp fun _ _ ⟨h, hs⟩ => ⟨by rw [h]; rfl, hs⟩)

theorem AppliesTo.yields_end {a : AppliesTo} {d d' : Nat} {remaining : List String}
    (hs : Ahead (commentLines d remaining ++ indent d' :: punct .rightBrace :: rest) s) :
    Yields (a.readTail s) { a with comments := { remaining } } rest := by
  have hl : Member.ofLexeme s.lookahead = none := by
    rw [hs.lookahead_eq, first_commentLines]
    rfl
  rw [AppliesTo.readTail]
  simp only [hl]
  obtain ⟨hremaining, hs⟩ := hs.takePending_comments (by simp)
  rw [AppliesTo.readEnd, hremaining]
  exact Reads.bind hs.indent.reads_expectFor fun _ s _ hs => ⟨rfl, hs⟩

theorem AppliesTo.yields {a : AppliesTo} (h : a.Writable)
    (hs : Ahead (a.layout depth ++ rest) s) : Yields (AppliesTo.read s) a.plain rest := by
  have hrefs {refs : Option (List Path)} (h : ∀ ps ∈ refs, ∀ p ∈ ps, p.Writable) :
      ∀ ps ∈ refs, ∀ rest s, Stops rest → Ahead (pathList ps ++ rest) s →
        Yields (pathRefs s) (id ps) rest :=
    fun ps hps _ _ _ hs => yields_pathRefs (h ps hps) hs
  have hcontext : ∀ t ∈ a.context, ∀ rest s, Stops rest →
      Ahead (t.layout (depth + 1) ++ rest) s → Yields (TypeExpr.read s) t.plain rest :=
    fun t ht => TypeExpr.yields (depth + 1) t (h.context t ht)
  rw [layout_eq] at hs
  refine Reads.bind (reads_openBrace hs) fun _ s _ ⟨d, hs⟩ => Reads.below _ ?_
  rw [List.append_assoc, List.append_assoc, List.append_assoc] at hs
  refine reads_memberLine (g := fun ps => { principals := ps }) rfl rfl (fun _ => rfl)
    (hrefs h.principals) (fun s hs => ?_) hs
  refine reads_memberLine (g := fun rs => { principals := _, resources := rs }) rfl rfl
    (fun _ => rfl) (hrefs h.resources) (fun s hs => ?_) hs
  refine reads_memberLine (g := fun t => { principals := _, resources := _, context := t }) rfl rfl
    (fun _ => rfl) hcontext (fun s hs => ?_) hs
  refine (AppliesTo.yields_end hs).imp fun x _ ⟨hx, hs⟩ => ⟨?_, hs⟩
  rw [hx, Option.map_id, AppliesTo.plain, ← h.comments.eq]
  rfl

theorem reads_appliesToClause {appliesTo : Option AppliesTo} (h : ∀ a ∈ appliesTo, a.Writable)
    (hr : first rest ≠ .ident "appliesTo")
    (hs : Behind (appliesToLayout depth appliesTo ++ rest) s) :
    Yields (appliesToClause s) (appliesTo.map AppliesTo.plain) rest := by
  cases appliesTo with
  | none =>
    refine reads_optional (fun h => ?_) fun _ => ⟨rfl, hs⟩
    rw [hs.ahead.lookahead_eq, List.mem_singleton] at h
    exact absurd h hr
  | some a =>
    refine reads_optional (fun _ => ?_) fun h => ?_
    · refine reads_afterWord hs.ahead.space.reads_expectWord fun s hs => ?_
      exact (AppliesTo.yields (h a rfl) hs.ahead.space).imp fun _ _ ⟨h, hs⟩ => ⟨by rw [h]; rfl, hs⟩
    · rw [hs.ahead.lookahead_eq] at h
      exact absurd (List.mem_singleton.2 rfl) h

theorem first_appliesToLayout {appliesTo : Option AppliesTo} {ls : List Lexeme}
    (h : first rest ∈ ls) :
    first (appliesToLayout depth appliesTo ++ rest) ∈ .ident "appliesTo" :: ls := by
  cases appliesTo with
  | none => exact List.mem_cons_of_mem _ h
  | some a => exact List.mem_cons_self

theorem first_actionParentLayout {parents : List ActionRef} {ls : List Lexeme}
    (h : first rest ∈ ls) : first (actionParentLayout parents ++ rest) ∈ .ident "in" :: ls := by
  cases parents with
  | nil => exact List.mem_cons_of_mem _ h
  | cons p ps => exact List.mem_cons_self

theorem ActionDecl.reads {d : ActionDecl} (h : d.Writable) (hc : d.comments.AtNode)
    (hs : Ahead (d.layout depth ++ punct .semicolon :: (lineEnd d.comments ++ rest)) s) :
    Reads (fun _ => False) (actionDecl ⟨d.comments.before, d.annotations⟩ s) fun x s' =>
      x = .action d.plain ∧ Ahead rest s' := by
  let tail := punct .semicolon :: (lineEnd d.comments ++ rest)
  have hs : Ahead (ident "action" :: space :: (commas (d.names.map fun n => [Piece.name n]) ++
      (actionParentLayout d.parents ++ (appliesToLayout depth d.appliesTo ++ tail)))) s := by
    simpa [ActionDecl.layout_eq] using hs
  have htail : first tail ∈ [.punct .semicolon] := List.mem_singleton.2 rfl
  have happlies := @first_appliesToLayout depth tail d.appliesTo _ htail
  have hparents := @first_actionParentLayout _ d.parents _ happlies
  have hnames := reads_afterWord hs.reads_expectWord fun s hs =>
    yields_commaSeparated h.names (fun n _ => readsItem_name [.identifier, .stringLiteral] n)
      ⟨ne_of_mem_of_not_mem hparents (by simp), ne_of_mem_of_not_mem hparents (by simp)⟩
      (ne_of_mem_of_not_mem hparents (by simp)) hs.ahead.space
  rw [actionDecl]
  refine Reads.bind hnames fun _ s _ ⟨hnames, hs⟩ => ?_
  have hin := reads_actionParents h.parents (ne_of_mem_of_not_mem happlies (by simp)) hs
  refine Reads.bind (Reads.upTo _ hin) fun _ s _ ⟨hps, hs⟩ => ?_
  have hclause := reads_appliesToClause h.appliesTo (ne_of_mem_of_not_mem htail (by simp)) hs
  refine Reads.bind (Reads.upTo _ hclause) fun _ s _ ⟨ha, hs⟩ => ?_
  have hnone : Yields (attributesClause s) none tail := by
    refine reads_optional (fun h => ?_) fun _ => ⟨rfl, hs⟩
    rw [hs.ahead.lookahead_eq] at h
    simp [tail] at h
  refine Reads.bind (Reads.upTo _ hnone) fun _ s _ ⟨_, hs⟩ => ?_
  refine Reads.bind (Reads.below _ (reads_declEnd hc hs.ahead)) fun _ s _ ⟨hcs, hs⟩ => ?_
  exact ⟨by rw [hnames, hps, ha, hcs]; rfl, hs⟩

/-! ## Common types -/

theorem CommonTypeDecl.reads {d : CommonTypeDecl} (h : d.Writable) (hc : d.comments.AtNode)
    (hs : Ahead (d.layout depth ++ punct .semicolon :: (lineEnd d.comments ++ rest)) s) :
    Reads (fun _ => False) (commonTypeDecl ⟨d.comments.before, d.annotations⟩ s) fun x s' =>
      x = .commonType d.plain ∧ Ahead rest s' := by
  refine Reads.bind hs.reads_expectWord fun _ s _ hs => ?_
  refine Reads.bind (Reads.below _ hs.ahead.space.reads_ident) fun _ s _ ⟨hn, hs⟩ => ?_
  rw [hn]
  refine Reads.guarded (fun hr => ?_) fun _ => ?_
  · rw [h.notReserved] at hr
    cases hr
  refine Reads.bind (Reads.below _ hs.ahead.space.reads_expect) fun _ s _ hs => ?_
  have htype := TypeExpr.yields depth d.type h.type _ s (by simp [Stops]) hs.ahead.space
  refine Reads.bind (Reads.below _ htype) fun _ s _ ⟨ht, hs⟩ => ?_
  refine Reads.bind (Reads.below _ (reads_declEnd hc hs.ahead)) fun _ s _ ⟨hcs, hs⟩ => ?_
  exact ⟨by rw [ht, hcs]; rfl, hs⟩

/-! ## Declarations behind their preamble -/

/-- The layout of a declaration between its preamble and its semicolon. -/
def Decl.body (depth : Nat) : Decl → List Piece
  | .entity d => d.layout depth
  | .enum d => d.layout
  | .action d => d.layout depth
  | .commonType d => d.layout depth

theorem Decl.layout_eq (d : Decl) :
    d.layout depth = preamble depth d.comments d.annotations ++
      indent depth :: (d.body depth ++ punct .semicolon :: lineEnd d.comments) := by
  cases d <;> rfl

/-- The word that a declaration begins with. -/
def Decl.word : Decl → String
  | .entity _ => "entity"
  | .enum _ => "entity"
  | .action _ => "action"
  | .commonType _ => "type"

theorem Decl.first_body (d : Decl) : first (d.body depth ++ rest) = .ident d.word := by
  cases d <;> rfl

theorem Decl.leading_body (d : Decl) : leading (d.body depth ++ rest) = [] := by
  cases d <;> rfl

theorem Decl.first_layout (d : Decl) {l : Lexeme} (ha : l ≠ .punct .atSign)
    (hw : .ident d.word ≠ l) : first (d.layout depth ++ rest) ≠ l := by
  rw [layout_eq, List.append_assoc]
  refine first_preamble ha ?_
  rw [List.cons_append, first_indent, List.append_assoc, first_body]
  exact hw

theorem Decl.word_ne_namespace (d : Decl) : d.word ≠ "namespace" := by
  cases d <;> simp [word]

theorem Decl.reads_preamble {d : Decl} (h : d.Writable) (hs : Ahead (d.layout depth ++ rest) s) :
    Reads (fun _ => False) (Preamble.read s) fun p s' =>
      p = ⟨d.comments.before, d.annotations⟩ ∧
        Ahead (d.body depth ++ punct .semicolon :: (lineEnd d.comments ++ rest)) s' := by
  have hs : Ahead (preamble depth d.comments d.annotations ++
      indent depth :: (d.body depth ++ punct .semicolon :: (lineEnd d.comments ++ rest))) s := by
    simpa [layout_eq] using hs
  refine (CedarSchema.reads_preamble h.annotations ?_ ?_ hs).imp fun _ _ ⟨hp, hs⟩ => ⟨hp, hs.indent⟩
  · rw [leading_indent, leading_body]
  · simp [first_body]

/-- A declaration is read back behind its preamble. -/
theorem Decl.reads {d : Decl} (h : d.Writable)
    (hs : Ahead (d.body depth ++ punct .semicolon :: (lineEnd d.comments ++ rest)) s) :
    Reads (fun _ => False) (Decl.read ⟨d.comments.before, d.annotations⟩ s) fun x s' =>
      x = d.plain ∧ Ahead rest s' := by
  have hl : s.lookahead = .ident d.word := hs.lookahead_eq.trans d.first_body
  have hbody := h.body
  have hc := h.comments
  rw [Decl.read, hl]
  cases d with
  | entity d => exact EntityDecl.reads hbody hc hs
  | enum d => exact EnumDecl.reads hbody hc hs
  | action d => exact ActionDecl.reads hbody hc hs
  | commonType d => exact CommonTypeDecl.reads hbody hc hs

/-! ## Blocks -/

/-- Between the lines of an item and those of the next may stand a newline. -/
theorem separated_newline (i : List Piece) (is : List (List Piece)) :
    ∃ gap, (∀ ps s, Ahead (gap ++ ps) s → Ahead ps s) ∧
      separated [newline] (i :: is) = i ++ (gap ++ separated [newline] is) := by
  cases is with
  | nil => exact ⟨[], fun _ _ => id, by simp [separated]⟩
  | cons j js => exact ⟨[newline], fun _ _ h => h.newline, by simp [separated]⟩

theorem yields_blockTail {decls : List Decl} (h : ∀ d ∈ decls, d.Writable)
    {remaining : List String} {n : Nat}
    (hs : Ahead (separated [newline] (decls.map (Decl.layout depth)) ++
      (commentLines depth remaining ++ indent n :: punct .rightBrace :: rest)) s) :
    Yields (blockTail s) (decls.map Decl.plain, remaining) rest := by
  induction decls generalizing s with
  | nil =>
    have hl : s.lookahead = .punct .rightBrace := hs.lookahead_eq.trans first_commentLines
    obtain ⟨hremaining, hs⟩ := hs.takePending_comments (by simp)
    rw [blockTail]
    simp only [hl]
    exact Reads.bind hs.indent.reads_expect fun _ s _ hs => ⟨by rw [hremaining]; rfl, hs⟩
  | cons d ds ih =>
    obtain ⟨hd, hds⟩ := List.forall_mem_cons.1 h
    obtain ⟨gap, hgap, heq⟩ := separated_newline (d.layout depth) (ds.map (Decl.layout depth))
    rw [List.map_cons, heq, List.append_assoc, List.append_assoc] at hs
    rw [blockTail.eq_def]
    split
    · rename_i hl
      exact absurd (hs.lookahead_eq.symm.trans hl) (d.first_layout (by simp) (by simp))
    · rename_i hl
      exact absurd (hs.lookahead_eq.symm.trans hl) (d.first_layout (by simp) (by simp))
    · refine Reads.bind (Decl.reads_preamble hd hs) ?_
      rintro _ s _ ⟨hp, hs⟩
      rw [hp]
      refine Reads.bind (Reads.behind _ (Decl.reads hd hs)) ?_
      rintro _ s _ ⟨hx, hs⟩
      refine Reads.bind (Reads.below _ (ih hds (hgap _ s hs))) ?_
      rintro _ s _ ⟨hxs, hs⟩
      exact ⟨by rw [hx, hxs]; rfl, hs⟩

/-- The layout of a namespace block behind its preamble. -/
def NamespaceBlock.body (b : NamespaceBlock) : List Piece :=
  ident "namespace" :: space :: (b.path.layout ++
    space :: (braced 0 (separated [newline] (b.decls.map (Decl.layout 1)) ++
      commentLines 1 b.comments.remaining) ++ lineEnd b.comments))

theorem NamespaceBlock.layout_eq (b : NamespaceBlock) :
    b.layout = preamble 0 b.comments b.annotations ++ b.body := rfl

theorem NamespaceBlock.first_layout (b : NamespaceBlock) : first (b.layout ++ rest) ≠ .eof := by
  rw [layout_eq, List.append_assoc]
  exact first_preamble (by simp) (by simp [body])

theorem NamespaceBlock.reads_preamble {b : NamespaceBlock} (h : b.Writable)
    (hs : Ahead (b.layout ++ rest) s) :
    Reads (fun _ => False) (Preamble.read s) fun p s' =>
      p = ⟨b.comments.before, b.annotations⟩ ∧ Ahead (b.body ++ rest) s' := by
  rw [layout_eq, List.append_assoc] at hs
  exact CedarSchema.reads_preamble h.annotations rfl (by simp [body]) hs

theorem NamespaceBlock.reads {b : NamespaceBlock} (h : b.Writable)
    (hs : Ahead (b.body ++ rest) s) :
    Reads (fun _ => False) (NamespaceBlock.read ⟨b.comments.before, b.annotations⟩ s) fun x s' =>
      x = b.plain ∧ Ahead rest s' := by
  have hs : Ahead (ident "namespace" :: space :: (b.path.layout ++
      space :: (braced 0 (separated [newline] (b.decls.map (Decl.layout 1)) ++
        commentLines 1 b.comments.remaining) ++ (lineEnd b.comments ++ rest)))) s := by
    simpa [body] using hs
  have hpath := reads_afterWord hs.reads_expectWord fun s hs =>
    Path.yields h.path (by rw [first_space, first_braced]; simp) hs.ahead.space
  refine Reads.bind hpath fun _ s _ ⟨hp, hs⟩ => ?_
  refine Reads.bind (Reads.below _ (reads_openBrace hs.ahead.space)) fun _ s _ ⟨n, hs⟩ => ?_
  rw [List.append_assoc] at hs
  refine Reads.bind (Reads.below _ (yields_blockTail h.decls hs)) fun _ s _ ⟨hb, hs⟩ => ?_
  obtain ⟨hinline, hs⟩ := hs.takeInline_lineEnd
  refine Reads.pure ⟨?_, hs⟩
  rw [hp, hb, nodeComments, hinline]
  rfl

/-! ## Files -/

/-- The items of a file are read back, with the comments that the tail begins with as the remaining
ones. -/
theorem reads_fileItems {items : List Item} (h : ∀ i ∈ items, i.Writable) {tail : List Piece}
    (htail : first tail = .eof)
    (hs : Ahead (separated [newline] (items.map Item.layout) ++ tail) s) :
    Ends (fun _ => False) (fileItems s) fun f => f = ⟨items.map Item.plain, leading tail⟩ := by
  induction items generalizing s with
  | nil =>
    have heof : s.lookahead = .eof := hs.lookahead_eq.trans htail
    rw [fileItems.eq_def]
    simp only [heof]
    exact Ends.pure (congrArg (Schema.mk []) hs.pendingTexts_eq)
  | cons i is ih =>
    obtain ⟨hi, his⟩ := List.forall_mem_cons.1 h
    obtain ⟨gap, hgap, heq⟩ := separated_newline i.layout (is.map Item.layout)
    rw [List.map_cons, heq, List.append_assoc, List.append_assoc] at hs
    rw [fileItems.eq_def]
    cases i with
    | decl d =>
      have hne : s.lookahead ≠ .eof := hs.lookahead_eq ▸ d.first_layout (by simp) (by simp)
      split
      · contradiction
      refine Reads.bindEnds (Decl.reads_preamble hi hs) ?_
      rintro _ s _ ⟨hp, hs⟩
      have hl : s.lookahead = .ident d.word := hs.lookahead_eq.trans d.first_body
      dsimp only
      split
      · rename_i hn
        exact absurd (Lexeme.ident.inj (hl.symm.trans hn)) d.word_ne_namespace
      · rename_i he
        cases hl.symm.trans he
      rw [hp]
      refine Reads.bindEnds (Reads.behind _ (Decl.reads hi hs)) ?_
      rintro _ s _ ⟨hx, hs⟩
      refine Ends.bind (ih his (hgap _ s hs)) fun f hf => Ends.pure ?_
      rw [hf, hx]
      rfl
    | block b =>
      have hne : s.lookahead ≠ .eof := hs.lookahead_eq ▸ b.first_layout
      split
      · contradiction
      refine Reads.bindEnds (NamespaceBlock.reads_preamble hi hs) ?_
      rintro _ s _ ⟨hp, hs⟩
      have hl : s.lookahead = .ident "namespace" := hs.lookahead_eq
      simp only [hl]
      rw [hp]
      have hblock := NamespaceBlock.reads hi hs
      refine Reads.bindEnds (Reads.behind _ hblock) ?_
      rintro _ s _ ⟨hx, hs⟩
      refine Ends.bind (ih his (hgap _ s hs)) fun f hf => Ends.pure ?_
      rw [hf, hx]
      rfl

/-- The comments behind the items of a layout. -/
theorem Schema.layout_eq (s : Schema) : ∃ tail, first tail = .eof ∧ leading tail = s.remaining ∧
    s.layout = separated [newline] (s.items.map Item.layout) ++ tail := by
  have hf := @first_commentLines [] 0 s.remaining
  have hl := @leading_commentLines [] 0 s.remaining
  rw [List.append_nil] at hf hl
  refine ⟨_, ?_, ?_, rfl⟩
  · split
    · rfl
    · split <;> exact hf
  · split
    · rename_i h
      exact (List.isEmpty_iff.1 h).symm
    · split <;> simpa using hl

/-- The canonical text of a writable schema is read as the schema, with plain paths. -/
theorem Schema.Writable.parse_format {s : Schema} (h : s.Writable) (hlines : s.LinesFit) :
    Ends (fun _ => False) (Schema.parse s.format) fun t => t = s.plain := by
  have htokens : TokenStream.ofText s.format = tokens .start s.layout :=
    ofCursor_textOf h.legible .start
  obtain ⟨tail, hfirst, hleading, hlayout⟩ := s.layout_eq
  have hstart : Ends (fun _ => False) (ParseState.start (tokens .start s.layout))
      (Ahead s.layout) :=
    Reads.bindEnds reads_enter fun _ _ _ hs => ⟨hlines, _, _, hs⟩
  rw [Schema.parse, htokens]
  refine Ends.bind hstart fun s' hs => ?_
  rw [hlayout] at hs
  refine (reads_fileItems h.items hfirst hs).imp fun t ht => ?_
  rw [ht, hleading]
  rfl

end

end CedarSchema
