import CedarSchema.Proofs.Grammar.Complete
import Mathlib

/-
  Reading declarations, blocks and files that derive from the grammar. A clause that is left out is
  passed over because what stands in its place begins another. With the converse, a text of tokens
  is read if and only if its words derive from the grammar, and as the one tree that they spell
  (`parse_iff_spells`).
-/

namespace CedarSchema

open ParseState

namespace Grammar

section

variable {s : ParseState} {ws rest : List Lexeme}

/-! ## Entity types -/

theorem reads_declEnd {before : List String} {wanted : List Wanted}
    (hs : Before (.punct .semicolon :: rest) s) :
    Reads (fun _ => False) (declEnd before s wanted) fun _ => Before rest :=
  Reads.bind (reads_expectFor hs) fun _ _ _ hs => hs.takeInline

theorem accepts_enumValues {vs : List String} (h : Items SpellsString ws vs) (hne : vs ≠ [])
    (hs : Before (.punct .leftBracket :: (ws ++ .punct .rightBracket :: rest)) s) :
    Accepts (enumValues s) vs rest := by
  have hlist : Accepts (stringList s) vs rest :=
    Reads.bind (reads_expect hs) fun _ _ _ hs =>
      Reads.below _ (accepts_bracketTail acceptsItem_stringLiteral h hs)
  refine Reads.bind hlist fun vs' s₁ _ ⟨hvs, hs⟩ => ?_
  have hv : ¬vs'.isEmpty = true := by
    rw [hvs, List.isEmpty_iff]
    exact hne
  rw [if_neg hv]
  exact ⟨hvs, hs⟩

theorem first_shape {r : Record TypeExpr} (h : SpellsShape ws r) :
    first (ws ++ rest) ∈ [.punct .equals, .punct .leftBrace] := by
  cases h with
  | bare h =>
    cases h
    simp
  | equals h => simp

theorem accepts_shapeRecord {r : Record TypeExpr} (h : SpellsShape ws r)
    (hs : Before (ws ++ rest) s) : AcceptsAs Record.bare (shapeRecord s) r rest := by
  rw [shapeRecord]
  cases h with
  | bare h =>
    refine reads_eat (fun hl => ?_) fun _ => accepts_record r ws h rest s hs
    rw [hs.lookahead_eq] at hl
    cases h
    simp at hl
  | equals h =>
    refine reads_eat (fun _ => ?_) fun hl => absurd hs.lookahead_eq hl
    exact Reads.bind (reads_expect hs) fun _ s₁ _ hs =>
      Reads.below _ (accepts_record r _ h rest s₁ hs)

theorem not_mem_of_disjoint {l : Lexeme} {ls ls' : List Lexeme} (h : l ∈ ls)
    (hd : ls.Disjoint ls') : l ∉ ls' := fun h' => hd h h'

theorem Halts.of_mem {ls : List Lexeme} (h : first rest ∈ ls)
    (hpath : .punct .doubleColon ∉ ls) (hset : .punct .leftAngle ∉ ls) : Halts rest :=
  ⟨ne_of_mem_of_not_mem h hpath, ne_of_mem_of_not_mem h hset⟩

theorem accepts_entity {p : Preamble} {ws₁ ws₂ ws₃ ws₄ : List Lexeme} {names : List String}
    {parents : Option (List Path)} {shape : Option (Record TypeExpr)} {tags : Option TypeExpr}
    (hnames : Commas SpellsIdent ws₁ names)
    (hparents : Optional (AfterWord "in" (OneOrBracketed SpellsPath)) ws₂ parents)
    (hshape : Optional SpellsShape ws₃ shape)
    (htags : Optional (AfterWord "tags" SpellsType) ws₄ tags)
    (hs : Before (.ident "entity" :: (ws₁ ++ (ws₂ ++ (ws₃ ++ (ws₄ ++ .punct .semicolon :: rest)))))
      s) :
    AcceptsAs Decl.bare (entityDecl p s)
      (.entity ⟨names, parents.getD [], shape, tags, p.annotations, {}⟩) rest := by
  have hend : first (.punct .semicolon :: rest) ∈ [.punct .semicolon] := List.mem_singleton.2 rfl
  have hbehind₄ := first_optional (fun _ _ h => List.mem_singleton.2 (first_afterWord h)) hend htags
  have hbehind₃ := first_optional (fun _ _ h => first_shape h) hbehind₄ hshape
  have hbehind₂ := first_optional (fun _ _ h => List.mem_singleton.2 (first_afterWord h)) hbehind₃
    hparents
  have hidents := reads_afterWord (reads_expectWord hs) fun s hs =>
    accepts_commaSeparated acceptsItem_ident (.of_mem hbehind₂ (by simp) (by simp))
      (ne_of_mem_of_not_mem hbehind₂ (by simp)) s ws₁ names hnames hs
  rw [entityDecl]
  refine Reads.bind hidents ?_
  rintro _ s₁ _ ⟨hnames, hs⟩
  refine reads_eatWord (fun hl => ?_) fun _ => ?_
  · rw [hs.lookahead_eq] at hl
    exact absurd hl (ne_of_mem_of_not_mem hbehind₂ (by simp))
  have hin : Accepts (parentClause s₁) parents _ :=
    accepts_optional (fun _ _ h => accepts_afterWord (fun s ws ps h =>
        accepts_pathRefs s ws ps h (.of_mem hbehind₃ (by simp) (by simp))) h)
      (fun _ _ h => List.mem_singleton.2 (first_afterWord h))
      (not_mem_of_disjoint hbehind₃ (by simp)) hparents hs
  refine Reads.bind (Reads.upTo _ hin) ?_
  rintro _ s₂ _ ⟨hps, hs⟩
  have hbraces : AcceptsAs _ (shapeClause s₂) shape _ :=
    acceptsAs_optional (fun _ _ h => accepts_shapeRecord h) (fun _ _ h => first_shape h)
      (not_mem_of_disjoint hbehind₄ (by simp)) hshape hs
  refine Reads.bind (Reads.upTo _ hbraces) ?_
  rintro _ s₃ _ ⟨hr, hs⟩
  have htypes : AcceptsAs _ (tagsClause s₃) tags _ :=
    acceptsAs_optional (fun _ _ h => acceptsAs_afterWord (fun s ws t h =>
        accepts_type t ws h _ s (.of_mem hend (by simp) (by simp))) h)
      (fun _ _ h => List.mem_singleton.2 (first_afterWord h)) (by simp) htags hs
  refine Reads.bind (Reads.upTo _ htypes) ?_
  rintro _ s₄ _ ⟨ht, hs⟩
  refine Reads.bind (Reads.below _ (reads_declEnd hs)) fun c s₅ _ hs => ⟨?_, hs⟩
  rw [Decl.bare, hnames, hps, hr, ht]

theorem accepts_enum {p : Preamble} {ws₁ ws₂ : List Lexeme} {names values : List String}
    (hnames : Commas SpellsIdent ws₁ names) (hvalues : Items SpellsString ws₂ values)
    (hne : values ≠ [])
    (hs : Before (.ident "entity" :: (ws₁ ++ .ident "enum" :: .punct .leftBracket ::
      (ws₂ ++ .punct .rightBracket :: .punct .semicolon :: rest))) s) :
    AcceptsAs Decl.bare (entityDecl p s) (.enum ⟨names, values, p.annotations, {}⟩) rest := by
  have hidents := reads_afterWord (reads_expectWord hs) fun s hs =>
    accepts_commaSeparated acceptsItem_ident (by simp [Halts]) (by simp) s ws₁ names hnames hs
  rw [entityDecl]
  refine Reads.bind hidents ?_
  rintro _ s₁ _ ⟨hnames, hs⟩
  refine reads_eatWord (fun _ => ?_) fun hl => absurd hs.lookahead_eq hl
  refine Reads.bind (reads_expectWord hs) fun _ s₂ _ hs => ?_
  have hlist := accepts_enumValues hvalues hne hs
  refine Reads.bind (Reads.below _ hlist) ?_
  rintro _ s₃ _ ⟨hvs, hs⟩
  refine Reads.bind (Reads.below _ (reads_declEnd hs)) fun c s₄ _ hs => ⟨?_, hs⟩
  rw [Decl.bare, hnames, hvs]

/-! ## Actions -/

theorem member_ofLexeme_word (m : Member) : Member.ofLexeme (.ident m.word) = some m := by
  cases m <;> rfl

/-- A member is spelled by its word, a colon and what it stands for, which is put to the clause. -/
theorem acceptsAs_readMember {a b : AppliesTo} (hb : a.bare = b) {c : MemberClause}
    (h : SpellsMember ws c) (hr : Halts rest) :
    ∃ ws', ws = .ident c.member.word :: .punct .colon :: ws' ∧
      ∀ s, Before (ws' ++ rest) s →
        AcceptsAs AppliesTo.bare (a.readMember c.member s) (put b c) rest := by
  subst hb
  cases h with
  | principals h =>
    refine ⟨_, rfl, fun s hs => Reads.map ?_⟩
    exact (accepts_pathRefs s _ _ h hr hs).imp fun _ _ ⟨hps, hs⟩ => ⟨by rw [hps]; rfl, hs⟩
  | resources h =>
    refine ⟨_, rfl, fun s hs => Reads.map ?_⟩
    exact (accepts_pathRefs s _ _ h hr hs).imp fun _ _ ⟨hrs, hs⟩ => ⟨by rw [hrs]; rfl, hs⟩
  | context h =>
    refine ⟨_, rfl, fun s hs => Reads.map ?_⟩
    exact (accepts_type _ _ h _ s hr hs).imp fun _ _ ⟨ht, hs⟩ => ⟨by rw [← ht]; rfl, hs⟩

theorem accepts_readEnd {a : AppliesTo} {wanted : List Wanted}
    (hs : Before (.punct .rightBrace :: rest) s) :
    AcceptsAs AppliesTo.bare (a.readEnd s wanted) a.bare rest :=
  Reads.bind (reads_expectFor hs.takePending) fun _ _ _ hs => ⟨rfl, hs⟩

theorem accepts_readTail {a : AppliesTo} {cs : List MemberClause} (h : Items SpellsMember ws cs)
    (hnodup : (cs.map MemberClause.member).Nodup) (hnew : ∀ c ∈ cs, a.has c.member = false)
    (hs : Before (ws ++ .punct .rightBrace :: rest) s) :
    AcceptsAs AppliesTo.bare (a.readTail s) (cs.foldl put a.bare) rest := by
  induction cs generalizing a ws s with
  | nil =>
    obtain rfl := h.eq_nil
    have hl : Member.ofLexeme s.lookahead = none := by
      rw [hs.lookahead_eq]
      rfl
    rw [AppliesTo.readTail]
    simp only [hl]
    exact accepts_readEnd hs
  | cons c cs ih =>
    obtain ⟨w, ws', rfl, hc, hmore⟩ := h.exists_more
    obtain ⟨hhas, hothers⟩ := List.forall_mem_cons.1 hnew
    obtain ⟨hmember, hdistinct⟩ := List.nodup_cons.1 hnodup
    have hhalts : Halts (ws' ++ .punct .rightBrace :: rest) := hmore.halts (by simp [Halts])
    obtain ⟨w', rfl, hread⟩ := acceptsAs_readMember (a := a) rfl hc hhalts
    have hs : Before (.ident c.member.word :: .punct .colon ::
        (w' ++ (ws' ++ .punct .rightBrace :: rest))) s := by
      simpa using hs
    have hl : Member.ofLexeme s.lookahead = some c.member := by
      rw [hs.lookahead_eq]
      exact member_ofLexeme_word c.member
    rw [AppliesTo.readTail]
    simp only [hl]
    refine Reads.guarded (fun h => ?_) fun _ => ?_
    · rw [hhas] at h
      cases h
    refine Reads.bind (reads_expectWord hs) fun _ s₁ _ hs => ?_
    refine Reads.bind (Reads.below _ (reads_expect hs)) fun _ s₂ _ hs => ?_
    refine Reads.bind (Reads.below _ (hread s₂ hs)) fun b s₃ _ ⟨hb, hs⟩ => ?_
    rw [List.foldl_cons, ← hb]
    cases hmore with
    | none =>
      refine reads_eat (fun hl => ?_) fun _ => Reads.below _ (accepts_readEnd hs)
      rw [hs.lookahead_eq] at hl
      cases hl
    | comma h =>
      refine reads_eat (fun _ => ?_) fun hl => absurd hs.lookahead_eq hl
      refine Reads.bind (reads_expect hs) fun _ s₄ _ hs => Reads.below _ ?_
      refine ih h hdistinct (fun c' hc' => ?_) hs
      rw [Bool.eq_false_iff, ← has_bare, hb, Ne, has_put, not_or, has_bare]
      refine ⟨fun heq => hmember (List.mem_map.2 ⟨c', hc', heq.symm⟩), ?_⟩
      exact Bool.eq_false_iff.1 (hothers c' hc')

theorem accepts_appliesTo {a : AppliesTo} (h : SpellsAppliesTo ws a) (hs : Before (ws ++ rest) s) :
    AcceptsAs AppliesTo.bare (AppliesTo.read s) a rest := by
  cases h with
  | mk h hnodup =>
    rw [List.cons_append, List.append_assoc] at hs
    refine Reads.bind (reads_expect hs) fun _ s₁ _ hs => Reads.below _ ?_
    exact accepts_readTail h hnodup (fun c _ => by cases c.member <;> rfl) hs

theorem accepts_emptyBraces {u : Unit} (h : SpellsNothing ws u) (hs : Before (ws ++ rest) s) :
    Accepts (emptyBraces s) u rest := by
  cases h with
  | mk =>
    refine Reads.bind (reads_expect hs) fun _ s₁ _ hs => Reads.below _ ?_
    exact (reads_expectFor hs).imp fun _ _ hs => ⟨rfl, hs⟩

theorem accepts_action {p : Preamble} {ws₁ ws₂ ws₃ ws₄ : List Lexeme} {names : List String}
    {parents : Option (List ActionRef)} {appliesTo : Option AppliesTo} {nothing : Option Unit}
    (hnames : Commas SpellsName ws₁ names)
    (hparents : Optional (AfterWord "in" (OneOrBracketed SpellsActionRef)) ws₂ parents)
    (happlies : Optional (AfterWord "appliesTo" SpellsAppliesTo) ws₃ appliesTo)
    (hnothing : Optional (AfterWord "attributes" SpellsNothing) ws₄ nothing)
    (hs : Before (.ident "action" :: (ws₁ ++ (ws₂ ++ (ws₃ ++ (ws₄ ++ .punct .semicolon :: rest)))))
      s) :
    AcceptsAs Decl.bare (actionDecl p s)
      (.action ⟨names, parents.getD [], appliesTo, p.annotations, {}⟩) rest := by
  have hend : first (.punct .semicolon :: rest) ∈ [.punct .semicolon] := List.mem_singleton.2 rfl
  have hbehind₄ := first_optional (fun _ _ h => List.mem_singleton.2 (first_afterWord h)) hend
    hnothing
  have hbehind₃ := first_optional (fun _ _ h => List.mem_singleton.2 (first_afterWord h)) hbehind₄
    happlies
  have hbehind₂ := first_optional (fun _ _ h => List.mem_singleton.2 (first_afterWord h)) hbehind₃
    hparents
  have hlist := reads_afterWord (reads_expectWord hs) fun s hs =>
    accepts_commaSeparated acceptsItem_actionName (.of_mem hbehind₂ (by simp) (by simp))
      (ne_of_mem_of_not_mem hbehind₂ (by simp)) s ws₁ names hnames hs
  rw [actionDecl]
  refine Reads.bind hlist ?_
  rintro _ s₁ _ ⟨hnames, hs⟩
  have hin : Accepts (actionParents s₁) (parents.getD []) _ :=
    Reads.map ((accepts_optional (fun _ _ h => accepts_afterWord (fun s ws rs h =>
        accepts_oneOrBracketed acceptsItem_actionRef s ws rs h
          (.of_mem hbehind₃ (by simp) (by simp))) h)
      (fun _ _ h => List.mem_singleton.2 (first_afterWord h))
      (not_mem_of_disjoint hbehind₃ (by simp)) hparents hs).imp fun _ _ h =>
        ⟨by rw [h.1], h.2⟩)
  refine Reads.bind (Reads.upTo _ hin) ?_
  rintro _ s₂ _ ⟨hps, hs⟩
  have hclause : AcceptsAs _ (appliesToClause s₂) appliesTo _ :=
    acceptsAs_optional (fun _ _ h => acceptsAs_afterWord (fun s ws a h => accepts_appliesTo h) h)
      (fun _ _ h => List.mem_singleton.2 (first_afterWord h))
      (not_mem_of_disjoint hbehind₄ (by simp)) happlies hs
  refine Reads.bind (Reads.upTo _ hclause) ?_
  rintro _ s₃ _ ⟨ha, hs⟩
  have hbraces : Accepts (attributesClause s₃) nothing _ :=
    accepts_optional (fun _ _ h => accepts_afterWord (fun s ws u h => accepts_emptyBraces h) h)
      (fun _ _ h => List.mem_singleton.2 (first_afterWord h)) (by simp) hnothing hs
  refine Reads.bind (Reads.upTo _ hbraces) ?_
  rintro _ s₄ _ ⟨_, hs⟩
  refine Reads.bind (Reads.below _ (reads_declEnd hs)) fun c s₅ _ hs => ⟨?_, hs⟩
  rw [Decl.bare, hnames, hps, ha]

/-! ## Common types and declarations -/

theorem accepts_commonType {p : Preamble} {name : String} {type : TypeExpr}
    (hname : isReservedTypeName name = false) (ht : SpellsType ws type)
    (hs : Before (.ident "type" :: .ident name :: .punct .equals ::
      (ws ++ .punct .semicolon :: rest)) s) :
    AcceptsAs Decl.bare (commonTypeDecl p s) (.commonType ⟨name, type, p.annotations, {}⟩)
      rest := by
  refine Reads.bind (reads_expectWord hs) fun _ s₁ _ hs => ?_
  refine Reads.bind (Reads.below _ (accepts_ident hs)) fun _ s₂ _ ⟨hn, hs⟩ => ?_
  rw [hn]
  refine Reads.guarded (fun h => ?_) fun _ => ?_
  · rw [hname] at h
    cases h
  refine Reads.bind (Reads.below _ (reads_expect hs)) fun _ s₃ _ hs => ?_
  have htype := accepts_type type ws ht _ s₃ (by simp [Halts]) hs
  refine Reads.bind (Reads.below _ htype) fun _ s₄ _ ⟨ht, hs⟩ => ?_
  refine Reads.bind (Reads.below _ (reads_declEnd hs)) fun c s₅ _ hs => ⟨?_, hs⟩
  rw [Decl.bare, ht]

theorem accepts_decl {p : Preamble} {d : Decl} (h : SpellsDecl p.annotations ws d)
    (hs : Before (ws ++ rest) s) : AcceptsAs Decl.bare (Decl.read p s) d rest := by
  rw [Decl.read]
  cases h with
  | entity hnames hparents hshape htags =>
    simp only [hs.lookahead_eq, List.cons_append, first_cons]
    exact accepts_entity hnames hparents hshape htags (by simpa using hs)
  | enum hnames hvalues hne =>
    simp only [hs.lookahead_eq, List.cons_append, first_cons]
    exact accepts_enum hnames hvalues hne (by simpa using hs)
  | action hnames hparents happlies hnothing =>
    simp only [hs.lookahead_eq, List.cons_append, first_cons]
    exact accepts_action hnames hparents happlies hnothing (by simpa using hs)
  | commonType name hname ht =>
    simp only [hs.lookahead_eq, List.cons_append, first_cons]
    exact accepts_commonType hname ht (by simpa using hs)

theorem first_decl {annotations : List Annotation} {d : Decl} (h : SpellsDecl annotations ws d) :
    first (ws ++ rest) ∈ [.ident "entity", .ident "action", .ident "type"] := by
  cases h <;> simp

/-! ## Blocks and files -/

theorem not_punct_of_mem {ls : List Lexeme} (h : first ws ∈ ls) (hls : ∀ p, .punct p ∉ ls)
    (p : Punct) : first ws ≠ .punct p :=
  ne_of_mem_of_not_mem h (hls p)

theorem accepts_blockTail {ds : List Decl} (h : SpellsDecls ws ds)
    (hs : Before (ws ++ .punct .rightBrace :: rest) s) :
    AcceptsAs (fun x => x.1.map Decl.bare) (blockTail s) ds rest := by
  induction h generalizing s with
  | none =>
    have hl : s.lookahead = .punct .rightBrace := hs.lookahead_eq
    rw [blockTail.eq_def]
    simp only [hl]
    exact Reads.bind (reads_expect hs.takePending) fun _ _ _ hs => ⟨rfl, hs⟩
  | @more ws₁ ws₂ ws₃ annotations d ds hann hd _ ih =>
    rw [List.append_assoc, List.append_assoc] at hs
    have hfirst := @first_decl ws₂ (ws₃ ++ .punct .rightBrace :: rest) _ _ hd
    have hl : s.lookahead ∈ [.punct .atSign, .ident "entity", .ident "action", .ident "type"] := by
      rw [hs.lookahead_eq]
      obtain h | h := first_annotations hann.annotations
      · rw [h]
        exact List.mem_cons_self
      · rw [h]
        exact List.mem_cons_of_mem _ hfirst
    rw [blockTail.eq_def]
    split
    · rename_i h
      simp [h] at hl
    · rename_i h
      simp [h] at hl
    refine Reads.bind (reads_preamble hann (not_punct_of_mem hfirst (by simp)) hs) ?_
    rintro p s₁ _ ⟨hp, hs⟩
    subst hp
    refine Reads.bind (Reads.behind _ (accepts_decl hd hs)) ?_
    rintro _ s₂ _ ⟨hd, hs⟩
    refine Reads.bind (Reads.below _ (ih hs)) ?_
    rintro _ s₃ _ ⟨hds, hs⟩
    exact ⟨by rw [← hds, ← hd]; rfl, hs⟩

theorem accepts_namespaceBlock {p : Preamble} {b : NamespaceBlock}
    (h : SpellsBlock p.annotations ws b) (hs : Before (ws ++ rest) s) :
    AcceptsAs NamespaceBlock.bare (NamespaceBlock.read p s) b rest := by
  cases h with
  | @mk ws₁ ws₂ path ds hpath hds =>
    have hs : Before (.ident "namespace" :: (ws₁ ++ .punct .leftBrace ::
        (ws₂ ++ .punct .rightBrace :: rest))) s := by
      simpa using hs
    have hname := reads_afterWord (reads_expectWord hs) fun s hs =>
      accepts_path hpath (by simp) hs
    refine Reads.bind hname fun _ s₁ _ ⟨hp, hs⟩ => ?_
    refine Reads.bind (Reads.below _ (reads_expect hs)) fun _ s₂ _ hs => ?_
    refine Reads.bind (Reads.below _ (accepts_blockTail hds hs)) fun _ s₃ _ ⟨hds, hs⟩ => ?_
    exact ⟨by rw [← hds, hp]; rfl, hs.takeInline⟩

theorem first_item {annotations : List Annotation} {i : Item} (h : SpellsItem annotations ws i) :
    first (ws ++ rest) ∈ [.ident "namespace", .ident "entity", .ident "action", .ident "type"] := by
  cases h with
  | block h =>
    cases h
    exact List.mem_cons_self
  | decl h => exact List.mem_cons_of_mem _ (first_decl h)

/-- Lexemes that spell a file are read, and as what they spell. -/
theorem accepts_fileItems {f : Schema} (h : SpellsSchema ws f) (hs : Before ws s) :
    Ends (fun _ => False) (fileItems s) fun f' => f'.bare = f := by
  induction h generalizing s with
  | none =>
    have hl : s.lookahead = .eof := hs.lookahead_eq
    rw [fileItems.eq_def]
    simp only [hl]
    rfl
  | @more ws₁ ws₂ ws₃ annotations i f hann hi _ ih =>
    rw [List.append_assoc] at hs
    have hfirst := @first_item ws₂ ws₃ _ _ hi
    have hl : s.lookahead ≠ .eof := by
      rw [hs.lookahead_eq]
      obtain h | h := first_annotations hann.annotations
      · rw [h]
        simp
      · rw [h]
        exact ne_of_mem_of_not_mem hfirst (by simp)
    rw [fileItems.eq_def]
    split
    · rename_i h
      exact absurd h hl
    refine Reads.bindEnds (reads_preamble hann (not_punct_of_mem hfirst (by simp)) hs) ?_
    rintro p s₁ _ ⟨hp, hs⟩
    subst hp
    dsimp only
    cases hi with
    | block hb =>
      have hword : s₁.lookahead = .ident "namespace" := by
        rw [hs.lookahead_eq]
        cases hb
        rfl
      simp only [hword]
      refine Reads.bindEnds (Reads.behind _ (accepts_namespaceBlock hb hs)) fun _ s₂ _ => ?_
      rintro ⟨hb, hs⟩
      exact Ends.bind (ih hs) fun f' hf => by rw [← hf, ← hb]; rfl
    | decl hd =>
      have hword := @first_decl ws₂ ws₃ _ _ hd
      rw [← hs.lookahead_eq] at hword
      split
      · rename_i h
        simp [h] at hword
      · rename_i h
        simp [h] at hword
      refine Reads.bindEnds (Reads.behind _ (accepts_decl hd hs)) ?_
      rintro _ s₂ _ ⟨hd, hs⟩
      exact Ends.bind (ih hs) fun f' hf => by rw [← hf, ← hd]; rfl

end

end Grammar

open Grammar

namespace Schema

/-- A text of tokens is read as `s` if its words spell what `s` is without comments. -/
theorem spells_of_parse {text : String} {tokens : List Token} (ht : tokenize text = .ok tokens) :
    (∀ s, parse text = .ok s → SpellsSchema (wordsOf tokens) s.bare) ∧
      ∀ t, SpellsSchema (wordsOf tokens) t → ∃ s, parse text = .ok s ∧ s.bare = t := by
  have hstream := TokenStream.readable_ofCursor (.ofText text)
  obtain ⟨hclean, _, hw⟩ := (TokenStream.ends_toExcept hstream).of_ok ht
  have hstart := (ends_start text).impError fun _ h => h hclean
  rw [hw]
  constructor
  · intro s hs
    have hsound : Ends (fun _ => True) (parse text) fun f =>
        SpellsSchema (TokenStream.ofText text).words f.bare :=
      Ends.bind (hstart.impError fun _ _ => trivial) fun s₀ ⟨hp, hs₀⟩ => by
        rw [← hs₀.words]
        exact derives_fileItems s₀ hp
    exact hsound.of_ok hs
  · intro t h
    have hcomplete : Ends (fun _ => False) (parse text) fun f => f.bare = t :=
      Ends.bind hstart fun s₀ ⟨_, hs₀⟩ => accepts_fileItems h ⟨hs₀.words, hs₀.clean.2 hclean⟩
    exact hcomplete.exists_ok

/-- A text of tokens is read if and only if its words derive from the grammar, and then it is read
as the one tree that derives, with comments. -/
theorem parse_iff_spells {text : String} {tokens : List Token} (ht : tokenize text = .ok tokens) :
    ((∃ s, parse text = .ok s) ↔ ∃ t, SpellsSchema (wordsOf tokens) t) ∧
      ∀ s, parse text = .ok s → ∀ t, SpellsSchema (wordsOf tokens) t ↔ t = s.bare := by
  obtain ⟨hsound, hcomplete⟩ := spells_of_parse ht
  refine ⟨⟨fun ⟨s, hs⟩ => ⟨s.bare, hsound s hs⟩, fun ⟨t, h⟩ => ?_⟩, fun s hs t => ⟨fun h => ?_, ?_⟩⟩
  · obtain ⟨s, hs, -⟩ := hcomplete t h
    exact ⟨s, hs⟩
  · obtain ⟨s', hs', rfl⟩ := hcomplete t h
    rw [hs] at hs'
    cases hs'
    rfl
  · rintro rfl
    exact hsound s hs

/-- Words of the grammar are names where a name is wanted, and a list may end with a comma. -/
theorem parse_iff_spells_words :
    let text := "entity enum in [in,] tags Set; /* b */ action in in x;"
    let d : EntityDecl :=
      { names := ["enum"], parents := [⟨["in"]⟩], tags := some (.path ⟨["Set"]⟩) }
    let a : ActionDecl := { names := ["in"], parents := [{ id := "x" }] }
    ∃ tokens, tokenize text = .ok tokens ∧
      SpellsSchema (wordsOf tokens) ⟨[.decl (.entity d), .decl (.action a)], []⟩ ∧
      ((∃ s, parse text = .ok s) ↔ ∃ t, SpellsSchema (wordsOf tokens) t) ∧
      ∀ s, parse text = .ok s → ∀ t, SpellsSchema (wordsOf tokens) t ↔ t = s.bare := by
  intro text d a
  have hparse : parse text =
      .ok ⟨[.decl (.entity { d with comments := { inline := some "/* b */" } }),
        .decl (.action a)], []⟩ := by
    cbv
  have htokens : (tokenize text).isOk = true := by
    cbv
  cases ht : tokenize text with
  | error e =>
    rw [ht] at htokens
    cases htokens
  | ok tokens =>
    have h := parse_iff_spells ht
    exact ⟨tokens, rfl, (h.2 _ hparse _).2 rfl, h⟩

end Schema

end CedarSchema
