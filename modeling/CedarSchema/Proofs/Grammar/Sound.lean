import CedarSchema.Proofs.Grammar.Rules
import CedarSchema.Proofs.Parse.Stream

/-
  What is read derives from the grammar. Every parsing function that does not fail has read over
  lexemes that spell its value, comments aside, and has left the others; where it looks at names or
  keys read before, what it lets pass differs from them. The inductions follow the parsing
  functions.
-/

namespace CedarSchema

open ParseState

namespace Grammar

variable {α β : Type}

/-- The reading ends, if not with a failure, behind lexemes that spell its value. -/
def Derives {n : Nat} (rule : List Lexeme → α → Prop) (s : ParseState)
    (r : Except ParseError (Reading n α)) : Prop :=
  Reads (fun _ => True) r fun x s' => ∃ ws, s.words = ws ++ s'.words ∧ rule ws x

/-- The reading ends, if not with a failure, behind the one lexeme `l x`. -/
def Drops {n : Nat} (l : Lexeme) (s : ParseState) (r : Except ParseError (Reading n α)) : Prop :=
  Reads (fun _ => True) r fun _ s' => s.words = l :: s'.words

/-- The rule for values that a function makes into what `rule` speaks of. -/
def On (f : α → β) (rule : List Lexeme → β → Prop) (ws : List Lexeme) (x : α) : Prop :=
  rule ws (f x)

section

variable {s : ParseState}

theorem Optional.map {rule : List Lexeme → α → Prop} {rule' : List Lexeme → β → Prop}
    {f : α → β} (hf : ∀ ws x, rule ws x → rule' ws (f x)) {ws : List Lexeme} {o : Option α}
    (h : Optional rule ws o) : Optional rule' ws (o.map f) := by
  cases h with
  | none => exact .none
  | some h => exact .some (hf ws _ h)

theorem AfterWord.of_on {w : String} {rule : List Lexeme → β → Prop} {f : α → β}
    (ws : List Lexeme) (x : α) (h : AfterWord w (On f rule) ws x) : AfterWord w rule ws (f x) := by
  cases h with
  | mk h => exact .mk h

/-! ## Tokens -/

theorem derives_take {wanted : List Wanted} {accept : Lexeme → Option α}
    {rule : List Lexeme → α → Prop} (ha : ∀ l a, accept l = some a → rule [l] a) :
    Derives rule s (s.take wanted accept) := by
  refine (reads_take_ahead (fun _ _ => trivial) fun _ => trivial).imp ?_
  exact fun a _ ⟨⟨l, hl, hw⟩, _⟩ => ⟨[l], hw, ha l a hl⟩

theorem drops_take {wanted : List Wanted} {l : Lexeme} :
    Drops l s (s.take wanted fun l' => if l' = l then some () else none) := by
  refine (reads_take_ahead (fun _ _ => trivial) fun _ => trivial).imp ?_
  rintro _ s' ⟨⟨l', hl, hw⟩, _⟩
  split at hl
  · rename_i h
    rw [hw, h]
  · cases hl

theorem drops_expectFor {wanted : List Wanted} {p : Punct} :
    Drops (.punct p) s (s.expectFor wanted p) := drops_take

theorem drops_expect {p : Punct} : Drops (.punct p) s (s.expect p) := drops_take

theorem drops_expectWord {w : String} : Drops (.ident w) s (s.expectWord w) := drops_take

theorem derives_ident : Derives SpellsIdent s s.ident := by
  refine derives_take fun l a ha => ?_
  split at ha
  · cases ha
    exact .mk a
  · cases ha

theorem derives_stringLiteral : Derives SpellsString s s.stringLiteral := by
  refine derives_take fun l a ha => ?_
  split at ha
  · cases ha
    exact .mk a
  · cases ha

theorem derives_name {wanted : List Wanted} : Derives SpellsName s (s.name wanted) := by
  refine derives_take fun l a ha => ?_
  split at ha
  · cases ha
    exact .ident a
  · cases ha
    exact .str a
  · cases ha

theorem derives_optional {begins : List Lexeme} {rule : List Lexeme → α → Prop}
    {read : (s : ParseState) → Except ParseError (Reading s.left α)}
    (hread : Derives rule s (read s)) : Derives (Optional rule) s (s.optional begins read) := by
  refine reads_optional (fun _ => ?_) fun _ => ⟨[], rfl, .none⟩
  exact hread.imp fun _ _ ⟨ws, hw, h⟩ => ⟨ws, hw, .some h⟩

theorem derives_afterWord {w : String} {rule : List Lexeme → α → Prop}
    {read : (s : ParseState) → Except ParseError (Reading s.left α)}
    (hread : ∀ s, Derives rule s (read s)) : Derives (AfterWord w rule) s (afterWord w read s) := by
  refine reads_afterWord drops_expectWord fun s' hs' => ?_
  exact (hread s').imp fun _ _ ⟨ws, hw, h⟩ => ⟨.ident w :: ws, by rw [hs', hw]; rfl, .mk h⟩

end

/-! ## Lists -/

section

variable {rule : List Lexeme → α → Prop}
  {item : (s : ParseState) → Except ParseError (Reading s.left α)}

theorem derives_bracketTail (hitem : ∀ s, Derives rule s (item s)) (s : ParseState) :
    Reads (fun _ => True) (bracketTail item s) fun xs s' =>
      ∃ ws, s.words = ws ++ .punct .rightBracket :: s'.words ∧ Items rule ws xs := by
  rw [bracketTail]
  refine reads_eat (fun _ => ?_) fun _ => ?_
  · exact Reads.bind drops_expect fun _ s' _ hw => ⟨[], hw, .none⟩
  refine Reads.bind (hitem s) ?_
  rintro x s₁ h ⟨ws, hw, hx⟩
  refine reads_eat (fun _ => ?_) fun _ => ?_
  · refine Reads.bind drops_expect fun _ s₂ h' hw' => ?_
    have h := left_trans h' h
    refine Reads.bind (Reads.below h (derives_bracketTail hitem s₂)) ?_
    rintro xs s₃ _ ⟨ws', hw'', hxs⟩
    exact ⟨_, by simp [hw, hw', hw''], .more hx hxs⟩
  · refine Reads.bind (Reads.below h drops_expectFor) fun _ s₂ _ hw' => ?_
    exact ⟨ws, by rw [hw, hw'], .one hx⟩
termination_by s.left

theorem derives_oneOrBracketed (hitem : ∀ s, Derives rule s (item s)) (s : ParseState) :
    Derives (OneOrBracketed rule) s (oneOrBracketed item s) := by
  rw [oneOrBracketed]
  refine reads_eat (fun _ => ?_) fun _ => Reads.map ?_
  · refine Reads.bind drops_expect fun _ s₁ h hw => Reads.below h ?_
    refine (derives_bracketTail hitem s₁).imp ?_
    rintro xs s₂ ⟨ws, hw', hxs⟩
    exact ⟨_, by simp [hw, hw'], .bracketed hxs⟩
  · refine (hitem s).imp ?_
    rintro x s' ⟨ws, hw, hx⟩
    exact ⟨ws, hw, .one hx⟩

theorem derives_commaSeparated (hitem : ∀ s, Derives rule s (item s)) (s : ParseState) :
    Derives (Commas rule) s (commaSeparated item s) := by
  rw [commaSeparated]
  refine Reads.bind (hitem s) ?_
  rintro x s₁ h ⟨ws, hw, hx⟩
  refine reads_eat (fun _ => ?_) fun _ => ⟨ws, hw, .one hx⟩
  refine Reads.bind drops_expect fun _ s₂ h' hw' => ?_
  have h := left_trans h' h
  refine Reads.bind (Reads.below h (derives_commaSeparated hitem s₂)) ?_
  rintro xs s₃ _ ⟨ws', hw'', hxs⟩
  exact ⟨_, by simp [hw, hw', hw''], .more hx hxs⟩
termination_by s.left

end

/-! ## Names and references -/

theorem derives_pathTail (s : ParseState) : Derives SpellsSegments s (pathTail s) := by
  rw [pathTail]
  refine reads_eat (fun _ => ?_) fun _ => ⟨[], rfl, .none⟩
  refine Reads.bind drops_expect fun _ s₁ h hw => ?_
  refine Reads.bind (Reads.below h derives_ident) ?_
  rintro x s₂ h ⟨_, hw', hx⟩
  refine Reads.bind (Reads.upTo h (derives_pathTail s₂)) ?_
  rintro xs s₃ _ ⟨ws, hw'', hxs⟩
  cases hx
  exact ⟨_, by simp [hw, hw', hw''], .more x hxs⟩
termination_by s.left

theorem derives_path (s : ParseState) : Derives SpellsPath s (Path.read s) := by
  refine Reads.bind derives_ident fun x s₁ h ⟨_, hw, hx⟩ => ?_
  refine Reads.bind (Reads.upTo h (derives_pathTail s₁)) fun xs s₂ _ ⟨ws, hw', hxs⟩ => ?_
  cases hx
  exact ⟨_, by simp [hw, hw'], .mk x hxs⟩

theorem SpellsSegments.append {ws ws' : List Lexeme} {xs ys : List String}
    (h : SpellsSegments ws xs) (h' : SpellsSegments ws' ys) :
    SpellsSegments (ws ++ ws') (xs ++ ys) := by
  induction h with
  | none => exact h'
  | more x _ ih => exact .more x ih

theorem SpellsPath.more {ws : List Lexeme} {xs : List String}
    (h : SpellsPath ws ⟨xs⟩) (x : String) :
    SpellsPath (ws ++ [.punct .doubleColon, .ident x]) ⟨xs ++ [x]⟩ := by
  cases h with
  | mk y hs => exact .mk y (hs.append (.more x .none))

/-- Behind segments that are read stands what makes an action reference of them. -/
theorem derives_actionRefTail (start : Position) (segments : List String) (front : List Lexeme)
    (hfront : SpellsPath front ⟨segments⟩) (s : ParseState) :
    Derives (fun ws r => SpellsActionRef (front ++ ws) r) s
      (actionRefTail start segments s) := by
  rw [actionRefTail.eq_def]
  refine reads_eat (fun _ => ?_) fun _ => ?_
  · refine Reads.bind drops_expect fun _ s₁ h hw => ?_
    dsimp only
    split
    · refine Reads.bind (Reads.below h derives_stringLiteral) ?_
      rintro id s₂ _ ⟨_, hw', hid⟩
      cases hid
      exact ⟨_, by rw [hw, hw']; rfl, .typed id hfront⟩
    · refine Reads.bind (Reads.below h derives_ident) ?_
      rintro x s₂ h ⟨_, hw', hx⟩
      cases hx
      have htail := derives_actionRefTail start (segments ++ [x]) _ (hfront.more x) s₂
      refine Reads.bind (Reads.upTo h htail) ?_
      rintro r s₃ _ ⟨ws, hw'', hr⟩
      refine ⟨.punct .doubleColon :: .ident x :: ws, by rw [hw, hw', hw'']; rfl, ?_⟩
      simpa using hr
    · trivial
  · dsimp only
    split
    · refine ⟨[], rfl, ?_⟩
      cases hfront with
      | mk id hs =>
        cases hs
        exact .ident _
    · trivial
termination_by s.left

theorem derives_actionRef (s : ParseState) : Derives SpellsActionRef s (ActionRef.read s) := by
  rw [ActionRef.read]
  split
  · refine Reads.map (derives_stringLiteral.imp ?_)
    rintro id s' ⟨_, hw, hid⟩
    cases hid
    exact ⟨_, hw, .str id⟩
  · refine Reads.bind derives_ident ?_
    rintro x s₁ h ⟨_, hw, hx⟩
    refine Reads.upTo h ?_
    cases hx
    have htail := derives_actionRefTail s.here [x] _ (.mk x .none) s₁
    refine htail.imp ?_
    rintro r s₂ ⟨ws, hw', hr⟩
    exact ⟨_, by rw [hw, hw']; rfl, hr⟩

/-! ## Annotations -/

theorem derives_annotationValue (s : ParseState) :
    Derives SpellsValue s (annotationValue s) := by
  refine Reads.bind drops_expect fun _ s₁ h hw => ?_
  refine Reads.bind (Reads.below h derives_stringLiteral) fun v s₂ h ⟨_, hw', hv⟩ => ?_
  refine Reads.bind (Reads.below h drops_expect) fun _ s₃ _ hw'' => ?_
  cases hv
  exact ⟨_, by rw [hw, hw', hw'']; rfl, .mk v⟩

theorem derives_annotationList (keys : List String) (s : ParseState) :
    Derives (fun ws as => SpellsAnn ws as ∧ ∀ a ∈ as, a.key ∉ keys) s (annotationList keys s) := by
  rw [annotationList]
  refine reads_eat (fun _ => ?_) fun _ => ⟨[], rfl, ⟨.none, .nil⟩, by simp⟩
  refine Reads.bind drops_expect fun _ s₁ h hw => ?_
  refine Reads.bind (Reads.below h derives_ident) ?_
  rintro key s₂ h ⟨_, hw', hkey⟩
  cases hkey
  refine Reads.guarded (fun _ => trivial) fun hnew => ?_
  have hvalue : Derives _ s₂ (s₂.optional [.punct .leftParen] annotationValue) :=
    derives_optional (derives_annotationValue s₂)
  refine Reads.bind (Reads.upTo h hvalue) ?_
  rintro v s₃ h ⟨ws, hw'', hv⟩
  have htail := derives_annotationList (key :: keys) s₃
  refine Reads.bind (Reads.upTo h htail) ?_
  rintro as s₄ _ ⟨ws', hw₃, has, hkeys⟩
  refine ⟨_, by simp [hw, hw', hw'', hw₃], ⟨.more key hv has.annotations, ?_⟩, ?_⟩
  · refine List.nodup_cons.2 ⟨fun hmem => ?_, has.distinct⟩
    obtain ⟨a, ha, heq⟩ := List.mem_map.1 hmem
    exact hkeys a ha (heq ▸ List.mem_cons_self)
  · refine List.forall_mem_cons.2 ⟨?_, fun a ha hmem => hkeys a ha (List.mem_cons_of_mem _ hmem)⟩
    simpa using hnew
termination_by s.left

theorem derives_preamble (s : ParseState) :
    Derives (fun ws p => SpellsAnn ws p.annotations) s (Preamble.read s) := by
  refine Reads.bind (derives_annotationList [] s.takePending) fun as s' _ ⟨ws, hw, has, _⟩ => ?_
  exact ⟨ws, hw, has⟩

/-! ## Types -/

theorem derives_presence (s : ParseState) : Derives SpellsPresence s (presence s) := by
  refine Reads.map (reads_optional (fun _ => ?_) fun _ => ⟨[], rfl, .required⟩)
  exact drops_expect.imp fun _ _ hw => ⟨[.punct .question], hw, .optional⟩

theorem drops_recordEnd {wanted : List Wanted} {s : ParseState} :
    Reads (fun _ => True) (recordEnd s wanted) fun r s' =>
      r.attributes = [] ∧ s.words = .punct .rightBrace :: s'.words :=
  Reads.bind drops_expectFor fun _ _ _ hw => ⟨rfl, hw⟩

theorem Record.bare_eq (r : Record TypeExpr) :
    Record.bare r = ⟨bareAttributes r.attributes, {}⟩ := by
  cases r
  rfl

mutual

theorem derives_type (s : ParseState) :
    Derives (On TypeExpr.bare SpellsType) s (TypeExpr.read s) := by
  rw [TypeExpr.read]
  split
  · exact Reads.map ((derives_record s).imp fun r s' ⟨ws, hw, hr⟩ => ⟨ws, hw, .record hr⟩)
  · refine Reads.bind (derives_path s) fun p s₁ h ⟨ws, hw, hp⟩ => ?_
    dsimp only
    split
    · rename_i hset
      refine reads_eat (fun _ => ?_) fun _ => ⟨ws, hw, .path hp⟩
      refine Reads.bind drops_expect fun _ s₂ h' hw' => ?_
      have h := left_trans h' h
      refine Reads.bind (Reads.below h (derives_type s₂)) fun t s₃ h ⟨ws', hw'', ht⟩ => ?_
      refine Reads.bind (Reads.below h drops_expect) fun _ s₄ _ hw₃ => ?_
      obtain ⟨segments⟩ := p
      cases hset
      cases hp with
      | mk x hs =>
        cases hs
        exact ⟨_, by simp [hw, hw', hw'', hw₃], .set ht⟩
    · exact ⟨ws, hw, .path hp⟩
  · trivial
termination_by (s.left, 1)

theorem derives_record (s : ParseState) :
    Derives (On Record.bare SpellsRecord) s (Record.read s) := by
  rw [Record.read]
  refine Reads.bind drops_expect fun _ s₁ h hw => Reads.below h ?_
  refine (derives_recordTail [] s₁).imp fun r s₂ ⟨ws, hw', hr, hnodup, _⟩ => ?_
  refine ⟨.punct .leftBrace :: (ws ++ [.punct .rightBrace]), by simp [hw, hw'], ?_⟩
  rw [On, Record.bare_eq]
  exact .mk hr hnodup
termination_by (s.left, 0)

theorem derives_recordTail (names : List String) (s : ParseState) :
    Reads (fun _ => True) (recordTail names s) fun r s' =>
      ∃ ws, s.words = ws ++ .punct .rightBrace :: s'.words ∧
        Items SpellsAttribute ws (bareAttributes r.attributes) ∧
        ((bareAttributes r.attributes).map Attribute.name).Nodup ∧
        ∀ a ∈ bareAttributes r.attributes, a.name ∉ names := by
  rw [recordTail]
  split
  · refine drops_recordEnd.imp fun r s' ⟨hnil, hw⟩ => ⟨[], hw, ?_⟩
    simp [hnil, bareAttributes, Items.none]
  refine Reads.bind (derives_preamble s) fun p s₁ h ⟨ws₁, hw₁, hp⟩ => ?_
  refine Reads.bind (Reads.behind h derives_name) fun name s₂ h ⟨ws₂, hw₂, hname⟩ => ?_
  refine Reads.guarded (fun _ => trivial) fun hnew => ?_
  have hnew : name ∉ names := by simpa using hnew
  refine Reads.bind (Reads.upTo h (derives_presence s₂)) fun q s₃ h ⟨ws₃, hw₃, hq⟩ => ?_
  refine Reads.bind (Reads.below h drops_expect) fun _ s₄ h hw₄ => ?_
  refine Reads.bind (Reads.below h (derives_type s₄)) fun type s₅ h ⟨ws₅, hw₅, ht⟩ => ?_
  have ha := SpellsAttribute.mk hp hname hq ht
  refine reads_eat (fun _ => ?_) fun _ => ?_
  · refine Reads.bind drops_expect fun _ s₆ h' hw₆ => ?_
    have h := left_trans h' h
    have htail := derives_recordTail (name :: names) s₆.takeInline
    refine Reads.bind (Reads.below h htail) ?_
    rintro r s₇ _ ⟨ws₇, hw₇, hr, hnodup, hnames⟩
    rw [words_takeInline] at hw₇
    refine ⟨_, ?_, .more ha hr, ?_, ?_⟩
    · simp [hw₁, hw₂, hw₃, hw₄, hw₅, hw₆, hw₇]
    · refine List.nodup_cons.2 ⟨fun hmem => ?_, hnodup⟩
      obtain ⟨a, ha, heq⟩ := List.mem_map.1 hmem
      exact hnames a ha (heq ▸ List.mem_cons_self)
    · refine List.forall_mem_cons.2 ⟨hnew, fun a ha hmem => ?_⟩
      exact hnames a ha (List.mem_cons_of_mem _ hmem)
  · refine Reads.bind (Reads.below h drops_recordEnd) fun r s₆ _ ⟨_, hw₆⟩ => ?_
    rw [words_takeInline] at hw₆
    refine ⟨_, ?_, .one ha, List.nodup_singleton _, List.forall_mem_singleton.2 hnew⟩
    simp [hw₁, hw₂, hw₃, hw₄, hw₅, hw₆]
termination_by (s.left, 2)

end

/-! ## Declarations -/

theorem drops_declEnd {before : List String} {wanted : List Wanted} {s : ParseState} :
    Drops (.punct .semicolon) s (declEnd before s wanted) :=
  Reads.bind drops_expectFor fun _ _ _ hw => hw

theorem derives_enumValues (s : ParseState) :
    Derives (fun ws vs => ∃ ws', ws = .punct .leftBracket :: (ws' ++ [.punct .rightBracket]) ∧
      Items SpellsString ws' vs ∧ vs ≠ []) s (enumValues s) := by
  have hlist : Reads (fun _ => True) (stringList s) fun vs s' =>
      ∃ ws, s.words = .punct .leftBracket :: (ws ++ .punct .rightBracket :: s'.words) ∧
        Items SpellsString ws vs :=
    Reads.bind drops_expect fun _ s₁ h hw => Reads.below h
      ((derives_bracketTail (fun _ => derives_stringLiteral) s₁).imp
        fun vs s₂ ⟨ws, hw', hvs⟩ => ⟨ws, by rw [hw, hw'], hvs⟩)
  refine Reads.bind hlist fun vs s' _ ⟨ws, hw, hvs⟩ => ?_
  dsimp only
  split
  · trivial
  · rename_i hne
    exact ⟨_, by simp [hw], ws, rfl, hvs, fun hnil => hne (List.isEmpty_iff.2 hnil)⟩

theorem derives_shapeRecord (s : ParseState) :
    Derives (On Record.bare SpellsShape) s (shapeRecord s) := by
  rw [shapeRecord]
  refine reads_eat (fun _ => ?_) fun _ => ?_
  · refine Reads.bind drops_expect fun _ s₁ h hw => Reads.below h ?_
    exact (derives_record s₁).imp fun r s₂ ⟨ws, hw', hr⟩ =>
      ⟨.punct .equals :: ws, by rw [hw, hw']; rfl, .equals hr⟩
  · exact (derives_record s).imp fun r s' ⟨ws, hw, hr⟩ => ⟨ws, hw, .bare hr⟩

theorem derives_entityDecl (p : Preamble) (s : ParseState) :
    Derives (On Decl.bare (SpellsDecl p.annotations)) s (entityDecl p s) := by
  have hnames : Derives _ s (afterWord "entity" (commaSeparated ident) s) :=
    derives_afterWord (derives_commaSeparated fun _ => derives_ident)
  rw [entityDecl]
  refine Reads.bind hnames ?_
  rintro names s₁ h ⟨_, hw₁, hnames⟩
  cases hnames with | mk hnames => ?_
  refine reads_eatWord (fun _ => ?_) fun _ => ?_
  · refine Reads.bind drops_expectWord fun _ s₂ h' hw₂ => ?_
    have h := left_trans h' h
    refine Reads.bind (Reads.below h (derives_enumValues s₂)) fun values s₃ h => ?_
    rintro ⟨_, hw₃, ws₃, rfl, hvs, hne⟩
    refine Reads.bind (Reads.below h drops_declEnd) fun c s₄ _ hw₄ => ?_
    exact ⟨_, by simp [hw₁, hw₂, hw₃, hw₄], .enum hnames hvs hne⟩
  · have hparents : Derives _ s₁ (parentClause s₁) :=
      derives_optional (derives_afterWord (derives_oneOrBracketed derives_path))
    refine Reads.bind (Reads.upTo h hparents) ?_
    rintro parents s₂ h ⟨ws₂, hw₂, hps⟩
    have hshape : Derives _ s₂ (shapeClause s₂) := derives_optional (derives_shapeRecord s₂)
    refine Reads.bind (Reads.upTo h hshape) ?_
    rintro shape s₃ h ⟨ws₃, hw₃, hr⟩
    have htags : Derives _ s₃ (tagsClause s₃) := derives_optional (derives_afterWord derives_type)
    refine Reads.bind (Reads.upTo h htags) ?_
    rintro tags s₄ h ⟨ws₄, hw₄, ht⟩
    refine Reads.bind (Reads.below h drops_declEnd) fun c s₅ _ hw₅ => ?_
    have hd : SpellsDecl p.annotations _ _ := .entity hnames hps
      (hr.map (f := Record.bare) fun _ _ h => h) (ht.map AfterWord.of_on)
    exact ⟨_, by simp [hw₁, hw₂, hw₃, hw₄, hw₅], hd⟩

/-! ### Actions -/

theorem has_put (a : AppliesTo) (c : MemberClause) (m : Member) :
    (put a c).has m = true ↔ c.member = m ∨ a.has m = true := by
  cases c <;> cases m <;> simp [put, AppliesTo.has, MemberClause.member]

/-- What is read for a member is put to the clause, comments aside. -/
theorem derives_readMember (a : AppliesTo) (m : Member) (s : ParseState) :
    Reads (fun _ => True) (a.readMember m s) fun b s' =>
      ∃ ws c, s.words = ws ++ s'.words ∧ c.member = m ∧ b.bare = put a.bare c ∧
        SpellsMember (.ident m.word :: .punct .colon :: ws) c := by
  cases m with
  | principal =>
    refine Reads.map ((derives_oneOrBracketed derives_path s).imp fun ps s' ⟨ws, hw, hps⟩ => ?_)
    exact ⟨ws, .principals ps, hw, rfl, rfl, .principals hps⟩
  | resource =>
    refine Reads.map ((derives_oneOrBracketed derives_path s).imp fun rs s' ⟨ws, hw, hrs⟩ => ?_)
    exact ⟨ws, .resources rs, hw, rfl, rfl, .resources hrs⟩
  | context =>
    refine Reads.map ((derives_type s).imp fun t s' ⟨ws, hw, ht⟩ => ?_)
    exact ⟨ws, .context t.bare, hw, rfl, rfl, .context ht⟩

theorem has_bare (a : AppliesTo) (m : Member) : a.bare.has m = a.has m := by
  cases m <;> simp [AppliesTo.bare, AppliesTo.has]

/-- Members that `a` does not have yet are read and put to it. -/
theorem derives_readTail (a : AppliesTo) (s : ParseState) :
    Reads (fun _ => True) (a.readTail s) fun b s' =>
      ∃ ws cs, s.words = ws ++ .punct .rightBrace :: s'.words ∧ Items SpellsMember ws cs ∧
        (cs.map MemberClause.member).Nodup ∧ (∀ c ∈ cs, a.has c.member = false) ∧
        b.bare = cs.foldl put a.bare := by
  have hend {a : AppliesTo} {wanted : List Wanted} {s : ParseState} :
      Reads (fun _ => True) (a.readEnd s wanted) fun b s' =>
        s.words = .punct .rightBrace :: s'.words ∧ b.bare = a.bare :=
    Reads.bind drops_expectFor fun _ _ _ hw => ⟨hw, rfl⟩
  rw [AppliesTo.readTail]
  split
  · exact hend.imp fun b s' ⟨hw, hb⟩ => ⟨[], [], hw, .none, .nil, by simp, hb⟩
  rename_i m _
  refine Reads.guarded (fun _ => trivial) fun hnew => ?_
  refine Reads.bind drops_expectWord fun _ s₁ h hw₁ => ?_
  refine Reads.bind (Reads.below h drops_expect) fun _ s₂ h hw₂ => ?_
  refine Reads.bind (Reads.below h (derives_readMember a m s₂)) fun b s₃ h => ?_
  rintro ⟨ws₃, c, hw₃, rfl, hb, hc⟩
  refine reads_eat (fun _ => ?_) fun _ => Reads.below h ?_
  · refine Reads.bind drops_expect fun _ s₄ h' hw₄ => ?_
    have h := left_trans h' h
    refine Reads.below h ((derives_readTail b s₄).imp fun b' s₅ => ?_)
    rintro ⟨ws₅, cs, hw₅, hcs, hnodup, hothers, hb'⟩
    have hhas {m : Member} : b.has m = true ↔ c.member = m ∨ a.has m = true := by
      rw [← has_bare, hb, has_put, has_bare]
    refine ⟨_, c :: cs, ?_, .more hc hcs, ?_, ?_, ?_⟩
    · simp [hw₁, hw₂, hw₃, hw₄, hw₅]
    · refine List.nodup_cons.2 ⟨fun hmem => ?_, hnodup⟩
      obtain ⟨c', hc', heq⟩ := List.mem_map.1 hmem
      have := hothers c' hc'
      rw [hhas.2 (.inl heq.symm)] at this
      cases this
    · refine List.forall_mem_cons.2 ⟨hnew, fun c' hc' => ?_⟩
      have := hothers c' hc'
      exact Bool.eq_false_iff.2 fun h => by rw [hhas.2 (.inr h)] at this; cases this
    · rw [hb', hb, List.foldl_cons]
  · refine hend.imp fun b' s₄ ⟨hw₄, hb'⟩ => ⟨_, [c], ?_, .one hc, ?_, ?_, ?_⟩
    · simp [hw₁, hw₂, hw₃, hw₄]
    · exact List.nodup_singleton _
    · exact List.forall_mem_singleton.2 hnew
    · rw [hb', hb]
      rfl
termination_by s.left

theorem derives_appliesTo (s : ParseState) :
    Derives (On AppliesTo.bare SpellsAppliesTo) s (AppliesTo.read s) := by
  refine Reads.bind drops_expect fun _ s₁ h hw => Reads.below h ?_
  refine (derives_readTail {} s₁).imp fun b s₂ ⟨ws, cs, hw', hcs, hnodup, _, hb⟩ => ?_
  refine ⟨.punct .leftBrace :: (ws ++ [.punct .rightBrace]), by simp [hw, hw'], ?_⟩
  rw [On, hb]
  exact .mk hcs hnodup

theorem derives_emptyBraces (s : ParseState) : Derives SpellsNothing s (emptyBraces s) := by
  refine Reads.bind drops_expect fun _ s₁ h hw => Reads.below h ?_
  exact drops_expectFor.imp fun _ _ hw' => ⟨_, by rw [hw, hw']; rfl, .mk⟩

theorem derives_actionDecl (p : Preamble) (s : ParseState) :
    Derives (On Decl.bare (SpellsDecl p.annotations)) s (actionDecl p s) := by
  have hnames : Derives _ s (afterWord "action" (commaSeparated actionName) s) :=
    derives_afterWord (derives_commaSeparated fun _ => derives_name)
  rw [actionDecl]
  refine Reads.bind hnames ?_
  rintro names s₁ h ⟨_, hw₁, hnames⟩
  cases hnames with | mk hnames => ?_
  have hparents : Reads (fun _ => True) (actionParents s₁) fun rs s' => ∃ ws o,
      s₁.words = ws ++ s'.words ∧ rs = o.getD [] ∧
        Optional (AfterWord "in" (OneOrBracketed SpellsActionRef)) ws o := by
    have hrefs := derives_oneOrBracketed derives_actionRef
    refine Reads.map ((derives_optional (derives_afterWord hrefs)).imp ?_)
    rintro o _ ⟨ws, hw, h⟩
    exact ⟨ws, o, hw, rfl, h⟩
  refine Reads.bind (Reads.upTo h hparents) fun parents s₂ h => ?_
  rintro ⟨ws₂, o, hw₂, rfl, hps⟩
  have happlies : Derives _ s₂ (appliesToClause s₂) :=
    derives_optional (derives_afterWord derives_appliesTo)
  refine Reads.bind (Reads.upTo h happlies) ?_
  rintro appliesTo s₃ h ⟨ws₃, hw₃, ha⟩
  have hnothing : Derives _ s₃ (attributesClause s₃) :=
    derives_optional (derives_afterWord derives_emptyBraces)
  refine Reads.bind (Reads.upTo h hnothing) ?_
  rintro _ s₄ h ⟨ws₄, hw₄, hn⟩
  refine Reads.bind (Reads.below h drops_declEnd) fun c s₅ _ hw₅ => ?_
  have hd : SpellsDecl p.annotations _ _ := .action hnames hps (ha.map AfterWord.of_on) hn
  exact ⟨_, by simp [hw₁, hw₂, hw₃, hw₄, hw₅], hd⟩

/-! ### Common types, blocks and files -/

theorem derives_commonTypeDecl (p : Preamble) (s : ParseState) :
    Derives (On Decl.bare (SpellsDecl p.annotations)) s (commonTypeDecl p s) := by
  refine Reads.bind drops_expectWord fun _ s₁ h hw₁ => ?_
  refine Reads.bind (Reads.below h derives_ident) fun name s₂ h ⟨_, hw₂, hname⟩ => ?_
  cases hname
  refine Reads.guarded (fun _ => trivial) fun hr => ?_
  refine Reads.bind (Reads.below h drops_expect) fun _ s₃ h hw₃ => ?_
  refine Reads.bind (Reads.below h (derives_type s₃)) fun type s₄ h ⟨ws, hw₄, ht⟩ => ?_
  refine Reads.bind (Reads.below h drops_declEnd) fun c s₅ _ hw₅ => ?_
  exact ⟨_, by simp [hw₁, hw₂, hw₃, hw₄, hw₅], .commonType name hr ht⟩

theorem derives_decl (p : Preamble) (s : ParseState) :
    Derives (On Decl.bare (SpellsDecl p.annotations)) s (Decl.read p s) := by
  rw [Decl.read]
  split
  · exact derives_entityDecl p s
  · exact derives_actionDecl p s
  · exact derives_commonTypeDecl p s
  · trivial

theorem derives_blockTail (s : ParseState) :
    Reads (fun _ => True) (blockTail s) fun x s' =>
      ∃ ws, s.words = ws ++ .punct .rightBrace :: s'.words ∧
        SpellsDecls ws (x.1.map Decl.bare) := by
  rw [blockTail.eq_def]
  split
  · exact Reads.bind drops_expect fun _ s' _ hw => ⟨[], hw, .none⟩
  · trivial
  · refine Reads.bind (derives_preamble s) ?_
    rintro p s₁ h ⟨ws₁, hw₁, hp⟩
    refine Reads.bind (Reads.behind h (derives_decl p s₁)) ?_
    rintro d s₂ h ⟨ws₂, hw₂, hd⟩
    refine Reads.bind (Reads.below h (derives_blockTail s₂)) ?_
    rintro x s₃ _ ⟨ws₃, hw₃, hds⟩
    exact ⟨_, by simp [hw₁, hw₂, hw₃], .more hp hd hds⟩
termination_by s.left

theorem derives_namespaceBlock (p : Preamble) (s : ParseState) :
    Derives (On NamespaceBlock.bare (SpellsBlock p.annotations)) s (NamespaceBlock.read p s) := by
  have hpath : Derives _ s (afterWord "namespace" Path.read s) := derives_afterWord derives_path
  refine Reads.bind hpath fun path s₁ h ⟨_, hw₁, hpath⟩ => ?_
  cases hpath with | mk hpath => ?_
  refine Reads.bind (Reads.below h drops_expect) fun _ s₂ h hw₂ => ?_
  refine Reads.bind (Reads.below h (derives_blockTail s₂)) fun x s₃ h ⟨ws₃, hw₃, hds⟩ => ?_
  exact ⟨_, by simp [hw₁, hw₂, hw₃], .mk hpath hds⟩

/-- What a file is read as is what the words ahead spell. -/
theorem derives_fileItems (s : ParseState) (hs : s.Proper) :
    Ends (fun _ => True) (fileItems s) fun f => SpellsSchema s.words f.bare := by
  rw [fileItems.eq_def]
  split
  · rename_i hl
    obtain ⟨pos, hf⟩ := hs.front_eof hl
    have hw : s.words = [] := by rw [words, hf]
    rw [hw]
    exact .none
  refine Reads.bindEnds (.and (gives_preamble hs) (derives_preamble s)) fun p s₁ h => ?_
  rintro ⟨⟨hs, hp⟩, ws₁, hw₁, ha⟩
  dsimp only
  split
  · have hblock := Reads.and (gives_namespaceBlock hp hs) (derives_namespaceBlock p s₁)
    refine Reads.bindEnds (Reads.behind h hblock) ?_
    rintro b s₂ _ ⟨⟨hs, _⟩, ws₂, hw₂, hb⟩
    refine Ends.bind (derives_fileItems s₂ hs) fun f hf => ?_
    rw [hw₁, hw₂, ← List.append_assoc]
    exact .more ha (.block hb) hf
  · trivial
  · have hdecl := Reads.and (gives_decl hp hs) (derives_decl p s₁)
    refine Reads.bindEnds (Reads.behind h hdecl) ?_
    rintro d s₂ _ ⟨⟨hs, _⟩, ws₂, hw₂, hd⟩
    refine Ends.bind (derives_fileItems s₂ hs) fun f hf => ?_
    rw [hw₁, hw₂, ← List.append_assoc]
    exact .more ha (.decl hd) hf
termination_by s.left

end Grammar

end CedarSchema
