import CedarSchema.Proofs.Grammar.Sound

/-
  Whatever derives from the grammar is read: tokens, lists, references and types. Before lexemes
  that a rule spells the parsing function of that rule succeeds, makes the tree that they spell, and
  leaves what follows them. One lexeme of lookahead is enough, for a path goes on only before a
  double colon, the word Set is a former of types only before an angle bracket, and no item of a
  list begins as its end does. The inductions are on what is spelled.
-/

namespace CedarSchema

open ParseState

namespace Grammar

variable {α β : Type}

/-- What is ahead of the state are the lexemes `ws`, comments aside, and then the text ends. -/
structure Before (ws : List Lexeme) (s : ParseState) : Prop where
  words : s.words = ws
  clean : s.Clean

/-- The reading succeeds with the value `x`, before the lexemes `rest`. -/
def Accepts {n : Nat} (r : Except ParseError (Reading n α)) (x : α) (rest : List Lexeme) : Prop :=
  Reads (fun _ => False) r fun y s => y = x ∧ Before rest s

/-- The reading succeeds with a value that `f` makes into `x`, before the lexemes `rest`. -/
def AcceptsAs {n : Nat} (f : α → β) (r : Except ParseError (Reading n α)) (x : β)
    (rest : List Lexeme) : Prop :=
  Reads (fun _ => False) r fun y s => f y = x ∧ Before rest s

/-- What stands first, which at the end of the text is that end. -/
def first (ws : List Lexeme) : Lexeme := ws.headD .eof

/-- Whether lexemes begin with nothing that could continue a path or a type. -/
def Halts (rest : List Lexeme) : Prop :=
  first rest ≠ .punct .doubleColon ∧ first rest ≠ .punct .leftAngle

@[simp] theorem first_cons {l : Lexeme} {ws : List Lexeme} : first (l :: ws) = l := rfl

section

variable {s : ParseState} {ws ws' rest : List Lexeme} {l : Lexeme}

theorem Before.lookahead_eq (hs : Before ws s) : s.lookahead = first ws := by
  rw [lookahead_eq_head, hs.words, first]

theorem Before.takeInline (hs : Before ws s) : Before ws s.takeInline := ⟨hs.words, hs.clean⟩

theorem Before.takePending (hs : Before ws s) : Before ws s.takePending := ⟨hs.words, hs.clean⟩

/-! ## Tokens -/

theorem accepts_take {wanted : List Wanted} {accept : Lexeme → Option α} {a : α}
    (ha : accept l = some a) (hs : Before (l :: ws) s) : Accepts (s.take wanted accept) a ws := by
  have hnone (h : ∀ l ws, s.words = l :: ws → accept l = none) : False := by
    rw [h l ws hs.words] at ha
    cases ha
  refine (reads_take_ahead (fun h => absurd hs.clean h) hnone).imp ?_
  rintro a' s' ⟨⟨l', ha', hw⟩, _, hclean⟩
  rw [hs.words] at hw
  cases hw
  rw [ha] at ha'
  cases ha'
  exact ⟨rfl, rfl, hclean.2 hs.clean⟩

theorem reads_expectFor {wanted : List Wanted} {p : Punct} (hs : Before (.punct p :: ws) s) :
    Reads (fun _ => False) (s.expectFor wanted p) fun _ => Before ws :=
  (accepts_take (if_pos rfl) hs).imp fun _ _ h => h.2

theorem reads_expect {p : Punct} (hs : Before (.punct p :: ws) s) :
    Reads (fun _ => False) (s.expect p) fun _ => Before ws := reads_expectFor hs

theorem reads_expectWord {w : String} (hs : Before (.ident w :: ws) s) :
    Reads (fun _ => False) (s.expectWord w) fun _ => Before ws :=
  (accepts_take (if_pos rfl) hs).imp fun _ _ h => h.2

theorem accepts_ident {x : String} (hs : Before (.ident x :: ws) s) : Accepts s.ident x ws :=
  accepts_take rfl hs

theorem accepts_stringLiteral {x : String} (hs : Before (.str x :: ws) s) :
    Accepts s.stringLiteral x ws := accepts_take rfl hs

/-- What reads before one kind of lexeme reads where something that may be missing is there. -/
theorem acceptsAs_optional {begins : List Lexeme} {rule : List Lexeme → β → Prop} {f : α → β}
    {read : (s : ParseState) → Except ParseError (Reading s.left α)} {o : Option β}
    (hread : ∀ ws x, rule ws x → Before (ws ++ rest) s → AcceptsAs f (read s) x rest)
    (hbegins : ∀ ws x, rule ws x → first (ws ++ rest) ∈ begins) (hr : first rest ∉ begins)
    (h : Optional rule ws o) (hs : Before (ws ++ rest) s) :
    AcceptsAs (Option.map f) (s.optional begins read) o rest := by
  cases h with
  | none =>
    refine reads_optional (fun hl => ?_) fun _ => ⟨rfl, hs⟩
    rw [hs.lookahead_eq] at hl
    exact absurd hl hr
  | some h =>
    refine reads_optional (fun _ => ?_) fun hl => ?_
    · exact (hread _ _ h hs).imp fun _ _ ⟨hx, hs⟩ => ⟨by rw [← hx]; rfl, hs⟩
    · rw [hs.lookahead_eq] at hl
      exact absurd (hbegins _ _ h) hl

theorem accepts_optional {begins : List Lexeme} {rule : List Lexeme → α → Prop}
    {read : (s : ParseState) → Except ParseError (Reading s.left α)} {o : Option α}
    (hread : ∀ ws x, rule ws x → Before (ws ++ rest) s → Accepts (read s) x rest)
    (hbegins : ∀ ws x, rule ws x → first (ws ++ rest) ∈ begins) (hr : first rest ∉ begins)
    (h : Optional rule ws o) (hs : Before (ws ++ rest) s) :
    Accepts (s.optional begins read) o rest :=
  (acceptsAs_optional (f := id) hread hbegins hr h hs).imp fun _ _ ⟨ho, hs⟩ =>
    ⟨by rwa [Option.map_id] at ho, hs⟩

theorem acceptsAs_afterWord {w : String} {rule : List Lexeme → β → Prop} {f : α → β}
    {read : (s : ParseState) → Except ParseError (Reading s.left α)} {x : β}
    (hread : ∀ s ws x, rule ws x → Before (ws ++ rest) s → AcceptsAs f (read s) x rest)
    (h : AfterWord w rule ws x) (hs : Before (ws ++ rest) s) :
    AcceptsAs f (afterWord w read s) x rest := by
  cases h with
  | mk h => exact reads_afterWord (reads_expectWord hs) fun s hs => hread s _ _ h hs

theorem accepts_afterWord {w : String} {rule : List Lexeme → α → Prop}
    {read : (s : ParseState) → Except ParseError (Reading s.left α)} {x : α}
    (hread : ∀ s ws x, rule ws x → Before (ws ++ rest) s → Accepts (read s) x rest)
    (h : AfterWord w rule ws x) (hs : Before (ws ++ rest) s) :
    Accepts (afterWord w read s) x rest :=
  acceptsAs_afterWord (f := id) hread h hs

theorem first_afterWord {w : String} {rule : List Lexeme → α → Prop} {x : α}
    (h : AfterWord w rule ws x) : first (ws ++ rest) = .ident w := by
  cases h with
  | mk h => rfl

/-- Something that may be missing begins as it does, or as what follows does. -/
theorem first_optional {rule : List Lexeme → α → Prop} {begins ls : List Lexeme} {o : Option α}
    (hbegins : ∀ ws x, rule ws x → first (ws ++ rest) ∈ begins) (hr : first rest ∈ ls)
    (h : Optional rule ws o) : first (ws ++ rest) ∈ begins ++ ls := by
  cases h with
  | none => exact List.mem_append_right begins hr
  | some h => exact List.mem_append_left ls (hbegins _ _ h)

/-! ## Lists -/

/-- What stands behind an item of a list: nothing, or a comma and more items. -/
inductive MoreItems (rule : List Lexeme → α → Prop) : List Lexeme → List α → Prop
  | none : MoreItems rule [] []
  | comma {ws : List Lexeme} {xs : List α} : Items rule ws xs →
      MoreItems rule (.punct .comma :: ws) xs

theorem Items.eq_nil {rule : List Lexeme → α → Prop} (h : Items rule ws []) : ws = [] := by
  cases h
  rfl

theorem Items.exists_more {rule : List Lexeme → α → Prop} {x : α} {xs : List α}
    (h : Items rule ws (x :: xs)) :
    ∃ w ws', ws = w ++ ws' ∧ rule w x ∧ MoreItems rule ws' xs := by
  cases h with
  | one h => exact ⟨_, [], (List.append_nil _).symm, h, .none⟩
  | more h h' => exact ⟨_, _, rfl, h, .comma h'⟩

theorem MoreItems.halts {rule : List Lexeme → α → Prop} {xs : List α} (h : MoreItems rule ws xs)
    {l : Lexeme} (hr : Halts (l :: rest)) : Halts (ws ++ l :: rest) := by
  cases h with
  | none => exact hr
  | comma h => simp [Halts]

/-- Items that begin with no punctuation and are read where nothing continues them. -/
structure AcceptsItem (item : (s : ParseState) → Except ParseError (Reading s.left α))
    (rule : List Lexeme → α → Prop) : Prop where
  begins : ∀ {ws x}, rule ws x → ∀ rest p, first (ws ++ rest) ≠ .punct p
  accepts : ∀ {ws x}, rule ws x → ∀ {rest s}, Halts rest → Before (ws ++ rest) s →
    Accepts (item s) x rest

variable {rule : List Lexeme → α → Prop}
  {item : (s : ParseState) → Except ParseError (Reading s.left α)}

theorem accepts_bracketTail (hitem : AcceptsItem item rule) {xs : List α} (h : Items rule ws xs)
    (hs : Before (ws ++ .punct .rightBracket :: rest) s) :
    Accepts (bracketTail item s) xs rest := by
  induction xs generalizing ws s with
  | nil =>
    obtain rfl := h.eq_nil
    rw [bracketTail]
    refine reads_eat (fun _ => ?_) fun hl => absurd hs.lookahead_eq hl
    exact Reads.bind (reads_expect hs) fun _ _ _ hs => ⟨rfl, hs⟩
  | cons x xs ih =>
    obtain ⟨w, ws', rfl, hx, hmore⟩ := h.exists_more
    rw [List.append_assoc] at hs
    rw [bracketTail]
    refine reads_eat (fun hl => ?_) fun _ => ?_
    · rw [hs.lookahead_eq] at hl
      exact absurd hl (hitem.begins hx _ _)
    have hx := hitem.accepts hx (hmore.halts (by simp [Halts])) hs
    refine Reads.bind hx ?_
    rintro _ s₁ _ ⟨hx, hs⟩
    rw [hx]
    cases hmore with
    | none =>
      refine reads_eat (fun hl => ?_) fun _ => ?_
      · rw [hs.lookahead_eq] at hl
        cases hl
      · exact Reads.bind (Reads.below _ (reads_expectFor hs)) fun _ _ _ hs => ⟨rfl, hs⟩
    | comma h =>
      refine reads_eat (fun _ => ?_) fun hl => absurd hs.lookahead_eq hl
      refine Reads.bind (reads_expect hs) fun _ s₂ _ hs => ?_
      refine Reads.bind (Reads.below _ (ih h hs)) ?_
      rintro _ _ _ ⟨hxs, hs⟩
      exact ⟨by rw [hxs], hs⟩

theorem accepts_oneOrBracketed (hitem : AcceptsItem item rule) (s : ParseState)
    (ws : List Lexeme) (xs : List α) (h : OneOrBracketed rule ws xs) (hr : Halts rest)
    (hs : Before (ws ++ rest) s) : Accepts (oneOrBracketed item s) xs rest := by
  rw [oneOrBracketed]
  cases h with
  | one hx =>
    refine reads_eat (fun hl => ?_) fun _ => Reads.map ?_
    · rw [hs.lookahead_eq] at hl
      exact absurd hl (hitem.begins hx _ _)
    · refine (hitem.accepts hx hr hs).imp ?_
      rintro _ _ ⟨hx, hs⟩
      exact ⟨by rw [hx], hs⟩
  | bracketed h =>
    rw [List.cons_append, List.append_assoc] at hs
    refine reads_eat (fun _ => ?_) fun hl => absurd hs.lookahead_eq hl
    exact Reads.bind (reads_expect hs) fun _ _ _ hs =>
      Reads.below _ (accepts_bracketTail hitem h hs)

theorem accepts_commaSeparated (hitem : AcceptsItem item rule) (hr : Halts rest)
    (hcomma : first rest ≠ .punct .comma) (s : ParseState) (ws : List Lexeme) (xs : List α)
    (h : Commas rule ws xs) (hs : Before (ws ++ rest) s) :
    Accepts (commaSeparated item s) xs rest := by
  induction h generalizing s with
  | one hx =>
    rw [commaSeparated]
    refine Reads.bind (hitem.accepts hx hr hs) ?_
    rintro _ s₁ _ ⟨hx, hs⟩
    refine reads_eat (fun hl => ?_) fun _ => ⟨by rw [hx], hs⟩
    rw [hs.lookahead_eq] at hl
    exact absurd hl hcomma
  | more hx _ ih =>
    rw [commaSeparated]
    rw [List.append_assoc] at hs
    refine Reads.bind (hitem.accepts hx (by simp [Halts]) hs) ?_
    rintro _ s₁ _ ⟨hx, hs⟩
    refine reads_eat (fun _ => ?_) fun hl => absurd hs.lookahead_eq hl
    refine Reads.bind (reads_expect hs) fun _ s₂ _ hs => ?_
    refine Reads.bind (Reads.below _ (ih s₂ hs)) ?_
    rintro _ _ _ ⟨hxs, hs⟩
    exact ⟨by rw [hx, hxs], hs⟩

/-! ## Names and references -/

theorem acceptsItem_ident : AcceptsItem ident SpellsIdent where
  begins h rest p := by cases h with | mk x => simp
  accepts h rest s _ hs := by cases h with | mk x => exact accepts_ident hs

theorem acceptsItem_stringLiteral : AcceptsItem stringLiteral SpellsString where
  begins h rest p := by cases h with | mk x => simp
  accepts h rest s _ hs := by cases h with | mk x => exact accepts_stringLiteral hs

theorem accepts_name {wanted : List Wanted} {x : String} (h : SpellsName ws x)
    (hs : Before (ws ++ rest) s) : Accepts (s.name wanted) x rest := by
  cases h with
  | ident x => exact accepts_take rfl hs
  | str x => exact accepts_take rfl hs

theorem first_name {x : String} (h : SpellsName ws x) (rest : List Lexeme) (p : Punct) :
    first (ws ++ rest) ≠ .punct p := by
  cases h <;> simp

theorem acceptsItem_actionName : AcceptsItem actionName SpellsName where
  begins h rest p := first_name h rest p
  accepts h _ _ _ hs := accepts_name h hs

theorem accepts_pathTail {xs : List String} (h : SpellsSegments ws xs)
    (hr : first rest ≠ .punct .doubleColon) (hs : Before (ws ++ rest) s) :
    Accepts (pathTail s) xs rest := by
  induction h generalizing s with
  | none =>
    rw [pathTail]
    refine reads_eat (fun hl => ?_) fun _ => Reads.pure ⟨rfl, hs⟩
    rw [hs.lookahead_eq] at hl
    exact absurd hl hr
  | more x _ ih =>
    rw [pathTail]
    refine reads_eat (fun _ => ?_) fun hl => absurd hs.lookahead_eq hl
    refine Reads.bind (reads_expect hs) fun _ s₁ _ hs => ?_
    refine Reads.bind (Reads.below _ (accepts_ident hs)) ?_
    rintro _ s₂ _ ⟨hx, hs⟩
    refine Reads.bind (Reads.upTo _ (ih hs)) ?_
    rintro _ s₃ _ ⟨hxs, hs⟩
    exact ⟨by rw [hx, hxs], hs⟩

theorem accepts_path {p : Path} (h : SpellsPath ws p) (hr : first rest ≠ .punct .doubleColon)
    (hs : Before (ws ++ rest) s) : Accepts (Path.read s) p rest := by
  cases h with
  | mk x h =>
    refine Reads.bind (accepts_ident hs) fun _ s₁ _ ⟨hx, hs⟩ => ?_
    refine Reads.bind (Reads.upTo _ (accepts_pathTail h hr hs)) fun _ s₂ _ ⟨hxs, hs⟩ => ?_
    exact ⟨by rw [hx, hxs], hs⟩

theorem first_path {p : Path} (h : SpellsPath ws p) : ∃ x, first (ws ++ rest) = .ident x := by
  cases h with
  | mk x h => exact ⟨x, rfl⟩

theorem acceptsItem_path : AcceptsItem Path.read SpellsPath where
  begins h rest p := by
    obtain ⟨x, hx⟩ := @first_path _ rest _ h
    rw [hx]
    simp
  accepts h _ _ hr hs := accepts_path h hr.1 hs

theorem accepts_pathRefs (s : ParseState) (ws : List Lexeme) (ps : List Path)
    (h : OneOrBracketed SpellsPath ws ps) (hr : Halts rest) (hs : Before (ws ++ rest) s) :
    Accepts (pathRefs s) ps rest :=
  accepts_oneOrBracketed acceptsItem_path s ws ps h hr hs

/-- Behind the first segments of a type stand its other segments and the id of the action. -/
theorem accepts_actionRefTail {start : Position} {segments xs : List String} {id : String}
    (h : SpellsSegments ws xs) (hs : Before (ws ++ .punct .doubleColon :: .str id :: rest) s) :
    Accepts (actionRefTail start segments s) ⟨some ⟨segments ++ xs⟩, id⟩ rest := by
  induction h generalizing s segments with
  | none =>
    rw [actionRefTail.eq_def]
    refine reads_eat (fun _ => ?_) fun hl => absurd hs.lookahead_eq hl
    refine Reads.bind (reads_expect hs) fun _ s₁ _ hs => ?_
    simp only [hs.lookahead_eq, first_cons]
    refine Reads.bind (Reads.below _ (accepts_stringLiteral hs)) ?_
    rintro _ s₂ _ ⟨hx, hs⟩
    exact ⟨by rw [hx, List.append_nil], hs⟩
  | more x _ ih =>
    rw [actionRefTail.eq_def]
    refine reads_eat (fun _ => ?_) fun hl => absurd hs.lookahead_eq hl
    refine Reads.bind (reads_expect hs) fun _ s₁ _ hs => ?_
    simp only [hs.lookahead_eq]
    refine Reads.bind (Reads.below _ (accepts_ident hs)) ?_
    rintro _ s₂ _ ⟨hx, hs⟩
    rw [hx]
    refine Reads.bind (Reads.upTo _ (ih hs)) ?_
    rintro _ s₃ _ ⟨hr, hs⟩
    exact ⟨by rw [hr, List.append_assoc]; rfl, hs⟩

theorem accepts_actionRef {r : ActionRef} (h : SpellsActionRef ws r)
    (hr : first rest ≠ .punct .doubleColon) (hs : Before (ws ++ rest) s) :
    Accepts (ActionRef.read s) r rest := by
  rw [ActionRef.read]
  cases h with
  | str id =>
    simp only [hs.lookahead_eq, List.cons_append, first_cons]
    refine Reads.map ((accepts_stringLiteral hs).imp ?_)
    rintro _ _ ⟨hx, hs⟩
    exact ⟨by rw [hx], hs⟩
  | ident id =>
    simp only [hs.lookahead_eq, List.cons_append, first_cons]
    refine Reads.bind (accepts_ident hs) ?_
    rintro _ s₁ _ ⟨hx, hs⟩
    refine Reads.upTo _ ?_
    rw [hx, actionRefTail.eq_def]
    refine reads_eat (fun hl => ?_) fun _ => Reads.pure ⟨rfl, hs⟩
    rw [hs.lookahead_eq] at hl
    exact absurd hl hr
  | typed id h =>
    cases h with
    | mk x h =>
      rw [List.append_assoc] at hs
      simp only [hs.lookahead_eq, List.cons_append, first_cons]
      refine Reads.bind (accepts_ident hs) ?_
      rintro _ s₁ _ ⟨hx, hs⟩
      refine Reads.upTo _ ?_
      rw [hx]
      exact accepts_actionRefTail h hs

theorem acceptsItem_actionRef : AcceptsItem ActionRef.read SpellsActionRef where
  begins h rest p := by
    cases h with
    | str id => simp
    | ident id => simp
    | typed id h => cases h with | mk x h => simp
  accepts h _ _ hr hs := accepts_actionRef h hr.1 hs

/-! ## Annotations -/

theorem accepts_annotationValue {v : String} (h : SpellsValue ws v)
    (hs : Before (ws ++ rest) s) : Accepts (annotationValue s) v rest := by
  cases h with
  | mk v =>
    refine Reads.bind (reads_expect hs) fun _ s₁ _ hs => ?_
    refine Reads.bind (Reads.below _ (accepts_stringLiteral hs)) fun _ s₂ _ ⟨hv, hs⟩ => ?_
    exact Reads.bind (Reads.below _ (reads_expect hs)) fun _ s₃ _ hs => ⟨hv, hs⟩

/-- Annotations begin with an at sign, or as what follows them does. -/
theorem first_annotations {as : List Annotation} (h : SpellsAnnotations ws as) :
    first (ws ++ rest) = .punct .atSign ∨ first (ws ++ rest) = first rest := by
  cases h with
  | none => exact .inr rfl
  | more key hv h => exact .inl rfl

theorem accepts_annotationList {keys : List String} {as : List Annotation}
    (h : SpellsAnnotations ws as) (hnodup : (as.map Annotation.key).Nodup)
    (hkeys : ∀ a ∈ as, a.key ∉ keys) (hr : ∀ p, first rest ≠ .punct p)
    (hs : Before (ws ++ rest) s) : Accepts (annotationList keys s) as rest := by
  induction h generalizing keys s with
  | none =>
    rw [annotationList]
    refine reads_eat (fun hl => ?_) fun _ => Reads.pure ⟨rfl, hs⟩
    rw [hs.lookahead_eq] at hl
    exact absurd hl (hr _)
  | @more key ws ws' v as hv h ih =>
    obtain ⟨hkey, hkeys⟩ := List.forall_mem_cons.1 hkeys
    obtain ⟨hnew, hnodup⟩ := List.nodup_cons.1 hnodup
    rw [List.cons_append, List.cons_append, List.append_assoc] at hs
    rw [annotationList]
    refine reads_eat (fun _ => ?_) fun hl => absurd hs.lookahead_eq hl
    refine Reads.bind (reads_expect hs) fun _ s₁ _ hs => ?_
    refine Reads.bind (Reads.below _ (accepts_ident hs)) ?_
    rintro _ s₂ _ ⟨hk, hs⟩
    rw [hk]
    refine Reads.guarded (fun h => absurd (List.contains_iff_mem.1 h) hkey) fun _ => ?_
    have hparen : first (ws' ++ rest) ≠ .punct .leftParen := by
      cases h with
      | none => exact hr _
      | more key hv h => simp
    have hvalue : Accepts (s₂.optional [.punct .leftParen] annotationValue) v (ws' ++ rest) :=
      accepts_optional (fun _ _ h => accepts_annotationValue h) (fun _ _ h => by cases h; simp)
        (by simpa using hparen) hv hs
    refine Reads.bind (Reads.upTo _ hvalue) ?_
    rintro _ s₃ _ ⟨hv, hs⟩
    have hkeys : ∀ a ∈ as, a.key ∉ key :: keys := by
      intro a ha hmem
      rcases List.mem_cons.1 hmem with heq | hmem
      · exact hnew (List.mem_map.2 ⟨a, ha, heq⟩)
      · exact hkeys a ha hmem
    refine Reads.bind (Reads.upTo _ (ih hnodup hkeys hs)) ?_
    rintro _ s₄ _ ⟨has, hs⟩
    exact ⟨by rw [hv, has], hs⟩

theorem reads_preamble {as : List Annotation} (h : SpellsAnn ws as)
    (hr : ∀ p, first rest ≠ .punct p) (hs : Before (ws ++ rest) s) :
    Reads (fun _ => False) (Preamble.read s) fun p s' => p.annotations = as ∧ Before rest s' := by
  have hlist : Accepts (annotationList [] s.takePending) as rest :=
    accepts_annotationList h.annotations h.distinct (by simp) hr hs.takePending
  exact Reads.bind hlist fun _ _ _ ⟨has, hs⟩ => ⟨has, hs.takePending⟩

/-! ## Types -/

theorem accepts_presence {required : Bool} (h : SpellsPresence ws required)
    (hs : Before (ws ++ .punct .colon :: rest) s) :
    Accepts (presence s) required (.punct .colon :: rest) := by
  refine Reads.map ?_
  cases h with
  | required =>
    refine reads_optional (fun hl => ?_) fun _ => ⟨rfl, hs⟩
    rw [hs.lookahead_eq] at hl
    simp at hl
  | optional =>
    refine reads_optional (fun _ => ?_) fun hl => ?_
    · exact (reads_expect hs).imp fun _ _ hs => ⟨rfl, hs⟩
    · rw [hs.lookahead_eq] at hl
      simp at hl

theorem accepts_recordEnd {wanted : List Wanted} (hs : Before (.punct .rightBrace :: rest) s) :
    AcceptsAs Record.bare (recordEnd s wanted) ⟨[], {}⟩ rest :=
  Reads.bind (reads_expectFor hs.takePending) fun _ _ _ hs => ⟨rfl, hs⟩

end

mutual

theorem accepts_type : (t : TypeExpr) → (ws : List Lexeme) → SpellsType ws t →
    (rest : List Lexeme) → (s : ParseState) → Halts rest → Before (ws ++ rest) s →
      AcceptsAs TypeExpr.bare (TypeExpr.read s) t rest
  | .path p, ws, .path h, rest, s, hr, hs => by
    obtain ⟨x, hx⟩ := @first_path ws rest p h
    have hl : s.lookahead = .ident x := hs.lookahead_eq.trans hx
    rw [TypeExpr.read]
    simp only [hl]
    refine Reads.bind (accepts_path h hr.1 hs) fun _ s₁ _ ⟨hp, hs⟩ => ?_
    rw [hp]
    split
    · refine reads_eat (fun hl => ?_) fun _ => ⟨rfl, hs⟩
      rw [hs.lookahead_eq] at hl
      exact absurd hl hr.2
    · exact ⟨rfl, hs⟩
  | .set element, _, @SpellsType.set ws _ h, rest, s, _, hs => by
    have hs : Before ([.ident "Set"] ++ .punct .leftAngle :: (ws ++ .punct .rightAngle :: rest))
        s := by
      simpa using hs
    have hset : SpellsPath [.ident "Set"] ⟨["Set"]⟩ := .mk "Set" .none
    have hl : s.lookahead = .ident "Set" := hs.lookahead_eq
    rw [TypeExpr.read]
    simp only [hl]
    refine Reads.bind (accepts_path hset (by simp) hs) fun _ s₁ _ ⟨hp, hs⟩ => ?_
    rw [hp, if_pos rfl]
    refine reads_eat (fun _ => ?_) fun hl => absurd hs.lookahead_eq hl
    refine Reads.bind (reads_expect hs) fun _ s₂ _ hs => ?_
    have helement := accepts_type element ws h _ s₂ (by simp [Halts]) hs
    refine Reads.bind (Reads.below _ helement) fun _ s₃ _ ⟨he, hs⟩ => ?_
    refine Reads.bind (Reads.below _ (reads_expect hs)) fun _ s₄ _ hs => ?_
    exact ⟨by rw [TypeExpr.bare, he], hs⟩
  | .record r, ws, .record h, rest, s, _, hs => by
    have hl : s.lookahead = .punct .leftBrace := by
      cases h
      exact hs.lookahead_eq
    rw [TypeExpr.read]
    simp only [hl]
    refine Reads.map ((accepts_record r ws h rest s hs).imp fun _ _ ⟨hr, hs⟩ => ?_)
    exact ⟨by rw [TypeExpr.bare, hr], hs⟩
termination_by t => sizeOf t

theorem accepts_record : (r : Record TypeExpr) → (ws : List Lexeme) → SpellsRecord ws r →
    (rest : List Lexeme) → (s : ParseState) → Before (ws ++ rest) s →
      AcceptsAs Record.bare (Record.read s) r rest
  | ⟨as, _⟩, _, @SpellsRecord.mk ws _ h hnodup, rest, s, hs => by
    have hs : Before (.punct .leftBrace :: (ws ++ .punct .rightBrace :: rest)) s := by
      simpa using hs
    rw [Record.read]
    refine Reads.bind (reads_expect hs) fun _ s₁ _ hs => Reads.below _ ?_
    exact accepts_recordTail as ws h [] hnodup (by simp) rest s₁ hs
termination_by r => sizeOf r

theorem accepts_recordTail : (as : List (Attribute TypeExpr)) → (ws : List Lexeme) →
    Items SpellsAttribute ws as → (names : List String) → (as.map Attribute.name).Nodup →
      (∀ a ∈ as, a.name ∉ names) → (rest : List Lexeme) → (s : ParseState) →
      Before (ws ++ .punct .rightBrace :: rest) s →
      AcceptsAs Record.bare (recordTail names s) ⟨as, {}⟩ rest
  | [], ws, h, names, _, _, rest, s, hs => by
    obtain rfl := h.eq_nil
    rw [recordTail, if_pos (isAt_iff.2 hs.lookahead_eq)]
    exact accepts_recordEnd hs
  | ⟨name, type, required, annotations, comments⟩ :: as, ws, h, names, hnodup, hnames, rest, s,
      hs => by
    obtain ⟨w, ws', rfl, ha, hmore⟩ := h.exists_more
    obtain ⟨hname, hothers⟩ := List.forall_mem_cons.1 hnames
    obtain ⟨hnew, hdistinct⟩ := List.nodup_cons.1 hnodup
    cases ha with | @mk ws₁ ws₂ ws₃ ws₄ _ _ _ _ hann hn hq ht => ?_
    have hs : Before (ws₁ ++ (ws₂ ++ (ws₃ ++ .punct .colon ::
        (ws₄ ++ (ws' ++ .punct .rightBrace :: rest))))) s := by
      simpa using hs
    have hl : ¬s.isAt .rightBrace = true := by
      rw [isAt_iff, hs.lookahead_eq]
      obtain hfirst | hfirst := first_annotations hann.annotations
      · rw [hfirst]
        simp
      · rw [hfirst]
        exact first_name hn _ _
    rw [recordTail, if_neg hl]
    refine Reads.bind (reads_preamble hann (first_name hn _) hs) fun p s₁ _ ⟨hp, hs⟩ => ?_
    refine Reads.bind (Reads.behind _ (accepts_name hn hs)) fun _ s₂ _ ⟨hn, hs⟩ => ?_
    rw [hn]
    refine Reads.guarded (fun h => absurd (List.contains_iff_mem.1 h) hname) fun _ => ?_
    refine Reads.bind (Reads.upTo _ (accepts_presence hq hs)) fun _ s₃ _ ⟨hq, hs⟩ => ?_
    refine Reads.bind (Reads.below _ (reads_expect hs)) fun _ s₄ _ hs => ?_
    have htype := accepts_type type ws₄ ht _ s₄ (hmore.halts (by simp [Halts])) hs
    refine Reads.bind (Reads.below _ htype) fun type' s₅ _ ⟨ht', hs⟩ => ?_
    cases hmore with
    | none =>
      refine reads_eat (fun hl => ?_) fun _ => ?_
      · rw [hs.lookahead_eq] at hl
        cases hl
      refine Reads.bind (Reads.below _ (accepts_recordEnd hs.takeInline)) fun r s₆ _ ⟨hr, hs⟩ => ?_
      refine ⟨?_, hs⟩
      rw [Record.bare_eq]
      simp [bareAttributes, ht', hq, hp]
    | comma h =>
      refine reads_eat (fun _ => ?_) fun hl => absurd hs.lookahead_eq hl
      refine Reads.bind (reads_expect hs) fun _ s₆ _ hs => ?_
      have hnames : ∀ a ∈ as, a.name ∉ name :: names := by
        intro a ha hmem
        rcases List.mem_cons.1 hmem with heq | hmem
        · exact hnew (List.mem_map.2 ⟨a, ha, heq⟩)
        · exact hothers a ha hmem
      have htail := accepts_recordTail as _ h (name :: names) hdistinct hnames rest _ hs.takeInline
      refine Reads.bind (Reads.below _ htail) fun r s₇ _ ⟨hr, hs⟩ => ?_
      refine ⟨?_, hs⟩
      rw [Record.bare_eq] at hr
      rw [Record.bare_eq]
      simpa [bareAttributes, ht', hq, hp] using congrArg Record.attributes hr
termination_by as => sizeOf as

end

end Grammar

end CedarSchema
