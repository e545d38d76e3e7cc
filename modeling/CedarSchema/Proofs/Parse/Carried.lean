import CedarSchema.Proofs.Parse.Reads

/-
  The invariant rule of the grammar. If reading one token keeps what holds of a state, and taking
  comments does, then every parsing function keeps it; and since the grammar fails nowhere but at
  the lookahead of a state it has been in, what holds of such failures holds of all.
-/

namespace CedarSchema

open ParseState

/-- Reading one token carries `I` on, and `E` holds of the failures on the way: of those that the
token is followed by, and of those of the grammar at a state of which `I` holds. -/
structure Carried (I : ParseState → Prop) (E : ParseError → Prop) : Prop where
  step : ∀ s t rest, I s → s.front = .token t rest →
    Reads E (enter s.pending t.stop rest) fun _ s' => I s'
  fault : ∀ s, I s → ∀ cause, E ⟨s.here, .grammatical cause⟩
  takePending : ∀ s, I s → I s.takePending
  takeInline : ∀ s, I s → I s.takeInline

/-- The reading ends where `I` holds or with a failure of which `E` holds. -/
def Carries {n : Nat} {α : Type} (I : ParseState → Prop) (E : ParseError → Prop)
    (r : Except ParseError (Reading n α)) : Prop :=
  Reads E r fun _ s => I s

namespace Carried

variable {I : ParseState → Prop} {E : ParseError → Prop} {s : ParseState} {α : Type}

/-! ## Tokens -/

theorem take (hI : Carried I E) (hs : I s) {wanted : List Wanted} {accept : Lexeme → Option α} :
    Carries I E (s.take wanted accept) :=
  reads_take (fun t rest _ hf _ => hI.step s t rest hs hf) fun _ => hI.fault s hs _

theorem expectFor (hI : Carried I E) (hs : I s) {wanted : List Wanted} {p : Punct} :
    Carries I E (s.expectFor wanted p) := hI.take hs

theorem expect (hI : Carried I E) (hs : I s) {p : Punct} : Carries I E (s.expect p) :=
  hI.expectFor hs

theorem expectWord (hI : Carried I E) (hs : I s) {w : String} : Carries I E (s.expectWord w) :=
  hI.take hs

theorem ident (hI : Carried I E) (hs : I s) : Carries I E s.ident := hI.take hs

theorem stringLiteral (hI : Carried I E) (hs : I s) : Carries I E s.stringLiteral := hI.take hs

theorem name (hI : Carried I E) (hs : I s) {wanted : List Wanted} : Carries I E (s.name wanted) :=
  hI.take hs

theorem optional {begins : List Lexeme}
    {read : (s : ParseState) → Except ParseError (Reading s.left α)} (hs : I s)
    (hread : Carries I E (read s)) : Carries I E (s.optional begins read) :=
  reads_optional (fun _ => hread) fun _ => hs

theorem afterWord (hI : Carried I E) {w : String}
    {read : (s : ParseState) → Except ParseError (Reading s.left α)}
    (hread : ∀ s, I s → Carries I E (read s)) (hs : I s) : Carries I E (afterWord w read s) :=
  reads_afterWord (hI.expectWord hs) hread

/-! ## Paths and lists -/

section

variable {item : (s : ParseState) → Except ParseError (Reading s.left α)}

theorem pathTail (hI : Carried I E) (s : ParseState) (hs : I s) :
    Carries I E (pathTail s) := by
  rw [CedarSchema.pathTail]
  refine reads_eat (fun _ => ?_) fun _ => hs
  refine Reads.bind (hI.expect hs) fun _ s h hs => ?_
  refine Reads.bind (Reads.below h (hI.ident hs)) fun _ s h hs => ?_
  exact Reads.bind (Reads.upTo h (pathTail hI s hs)) fun _ _ _ hs => hs
termination_by s.left

theorem path (hI : Carried I E) (s : ParseState) (hs : I s) : Carries I E (Path.read s) := by
  refine Reads.bind (hI.ident hs) fun _ s h hs => ?_
  exact Reads.bind (Reads.upTo h (hI.pathTail s hs)) fun _ _ _ hs => hs

theorem bracketTail (hI : Carried I E) (hitem : ∀ s, I s → Carries I E (item s))
    (s : ParseState) (hs : I s) : Carries I E (bracketTail item s) := by
  rw [CedarSchema.bracketTail]
  refine reads_eat (fun _ => ?_) fun _ => ?_
  · exact Reads.bind (hI.expect hs) fun _ _ _ hs => hs
  refine Reads.bind (hitem s hs) fun _ s h hs => ?_
  refine reads_eat (fun _ => ?_) fun _ => ?_
  · refine Reads.bind (hI.expect hs) fun _ s h' hs => ?_
    have h := left_trans h' h
    exact Reads.bind (Reads.below h (bracketTail hI hitem s hs)) fun _ _ _ hs => hs
  · exact Reads.bind (Reads.below h (hI.expectFor hs)) fun _ _ _ hs => hs
termination_by s.left

theorem oneOrBracketed (hI : Carried I E) (hitem : ∀ s, I s → Carries I E (item s))
    (s : ParseState) (hs : I s) : Carries I E (oneOrBracketed item s) := by
  rw [CedarSchema.oneOrBracketed]
  refine reads_eat (fun _ => ?_) fun _ => Reads.map (hitem s hs)
  exact Reads.bind (hI.expect hs) fun _ s h hs => Reads.below h (hI.bracketTail hitem s hs)

theorem commaSeparated (hI : Carried I E) (hitem : ∀ s, I s → Carries I E (item s))
    (s : ParseState) (hs : I s) : Carries I E (commaSeparated item s) := by
  rw [CedarSchema.commaSeparated]
  refine Reads.bind (hitem s hs) fun _ s h hs => ?_
  refine reads_eat (fun _ => ?_) fun _ => hs
  refine Reads.bind (hI.expect hs) fun _ s h' hs => ?_
  have h := left_trans h' h
  exact Reads.bind (Reads.below h (commaSeparated hI hitem s hs)) fun _ _ _ hs => hs
termination_by s.left

end

theorem pathRefs (hI : Carried I E) (s : ParseState) (hs : I s) : Carries I E (pathRefs s) :=
  hI.oneOrBracketed hI.path s hs

theorem enumValues (hI : Carried I E) (s : ParseState) (hs : I s) :
    Carries I E (enumValues s) := by
  have hlist : Carries I E (stringList s) :=
    Reads.bind (hI.expect hs) fun _ s h hs =>
      Reads.below h (hI.bracketTail (fun _ => hI.stringLiteral) s hs)
  refine Reads.bind hlist fun _ s' _ hs' => ?_
  dsimp only
  split
  · exact hI.fault s hs _
  · exact hs'

/-! ## References to actions -/

/-- A reference without an id fails where it starts. -/
theorem actionRefTail (hI : Carried I E) {start : Position}
    (hstart : ∀ cause, E ⟨start, .grammatical cause⟩) (segments : List String) (s : ParseState)
    (hs : I s) : Carries I E (actionRefTail start segments s) := by
  rw [actionRefTail.eq_def]
  refine reads_eat (fun _ => ?_) fun _ => ?_
  · refine Reads.bind (hI.expect hs) fun _ s h hs => ?_
    dsimp only
    split
    · exact Reads.bind (Reads.below h (hI.stringLiteral hs)) fun _ _ _ hs => hs
    · refine Reads.bind (Reads.below h (hI.ident hs)) fun segment s h hs => ?_
      have htail := actionRefTail hI hstart (segments ++ [segment]) s hs
      exact Reads.bind (Reads.upTo h htail) fun _ _ _ hs => hs
    · exact hI.fault s hs _
  · dsimp only
    split
    · exact hs
    · exact hstart _
termination_by s.left

theorem actionRef (hI : Carried I E) (s : ParseState) (hs : I s) :
    Carries I E (ActionRef.read s) := by
  rw [ActionRef.read]
  split
  · exact Reads.map (hI.stringLiteral hs)
  · refine Reads.bind (hI.ident hs) fun segment s' h hs' => Reads.upTo h ?_
    exact hI.actionRefTail (hI.fault s hs) [segment] s' hs'

/-! ## What may stand before a node -/

theorem annotationValue (hI : Carried I E) (s : ParseState) (hs : I s) :
    Carries I E (annotationValue s) := by
  refine Reads.bind (hI.expect hs) fun _ s h hs => ?_
  refine Reads.bind (Reads.below h (hI.stringLiteral hs)) fun _ s h hs => ?_
  exact Reads.bind (Reads.below h (hI.expect hs)) fun _ _ _ hs => hs

theorem annotationList (hI : Carried I E) (keys : List String) (s : ParseState) (hs : I s) :
    Carries I E (annotationList keys s) := by
  rw [CedarSchema.annotationList]
  refine reads_eat (fun _ => ?_) fun _ => hs
  refine Reads.bind (hI.expect hs) fun _ s h hs => ?_
  refine Reads.bind (Reads.below h (hI.ident hs)) fun key s' h hs' => ?_
  refine Reads.guarded (fun _ => hI.fault s hs _) fun _ => ?_
  have hvalue : Carries I E (s'.optional [.punct .leftParen] CedarSchema.annotationValue) :=
    optional hs' (hI.annotationValue s' hs')
  refine Reads.bind (Reads.upTo h hvalue) fun _ s h hs => ?_
  have htail := annotationList hI (key :: keys) s hs
  exact Reads.bind (Reads.upTo h htail) fun _ _ _ hs => hs
termination_by s.left

theorem preamble (hI : Carried I E) (s : ParseState) (hs : I s) :
    Carries I E (Preamble.read s) :=
  Reads.bind (hI.annotationList [] _ (hI.takePending s hs)) fun _ s _ hs => hI.takePending s hs

/-! ## Types -/

theorem presence (hI : Carried I E) (s : ParseState) (hs : I s) : Carries I E (presence s) :=
  Reads.map (optional hs (hI.expect hs))

theorem recordEnd (hI : Carried I E) {wanted : List Wanted} (s : ParseState) (hs : I s) :
    Carries I E (recordEnd s wanted) :=
  Reads.bind (hI.expectFor (hI.takePending s hs)) fun _ _ _ hs => hs

mutual

theorem type (hI : Carried I E) (s : ParseState) (hs : I s) : Carries I E (TypeExpr.read s) := by
  rw [TypeExpr.read]
  split
  · exact Reads.map (record hI s hs)
  · refine Reads.bind (hI.path s hs) fun p s h hs => ?_
    dsimp only
    split
    · refine reads_eat (fun _ => ?_) fun _ => hs
      refine Reads.bind (hI.expect hs) fun _ s h' hs => ?_
      have h := left_trans h' h
      refine Reads.bind (Reads.below h (type hI s hs)) fun _ s h hs => ?_
      exact Reads.bind (Reads.below h (hI.expect hs)) fun _ _ _ hs => hs
    · exact hs
  · exact hI.fault s hs _
termination_by (s.left, 1)

theorem record (hI : Carried I E) (s : ParseState) (hs : I s) : Carries I E (Record.read s) := by
  rw [Record.read]
  exact Reads.bind (hI.expect hs) fun _ s h hs => Reads.below h (recordTail hI [] s hs)
termination_by (s.left, 0)

theorem recordTail (hI : Carried I E) (names : List String) (s : ParseState) (hs : I s) :
    Carries I E (recordTail names s) := by
  rw [CedarSchema.recordTail]
  split
  · exact hI.recordEnd s hs
  refine Reads.bind (hI.preamble s hs) fun p s h hs => ?_
  refine Reads.bind (Reads.behind h (hI.name hs)) fun name s' h hs' => ?_
  refine Reads.guarded (fun _ => hI.fault s hs _) fun _ => ?_
  refine Reads.bind (Reads.upTo h (hI.presence s' hs')) fun _ s h hs => ?_
  refine Reads.bind (Reads.below h (hI.expect hs)) fun _ s h hs => ?_
  refine Reads.bind (Reads.below h (type hI s hs)) fun _ s h hs => ?_
  refine reads_eat (fun _ => ?_) fun _ => ?_
  · refine Reads.bind (hI.expect hs) fun _ s h' hs => ?_
    have h := left_trans h' h
    have htail := recordTail hI (name :: names) s.takeInline (hI.takeInline s hs)
    exact Reads.bind (Reads.below h htail) fun _ _ _ hs => hs
  · have hs := hI.takeInline s hs
    exact Reads.bind (Reads.below h (hI.recordEnd s.takeInline hs)) fun _ _ _ hs => hs
termination_by (s.left, 2)

end

/-! ## Declarations -/

theorem declEnd (hI : Carried I E) {before : List String} {wanted : List Wanted} (s : ParseState)
    (hs : I s) : Carries I E (declEnd before s wanted) :=
  Reads.bind (hI.expectFor hs) fun _ s _ hs => hI.takeInline s hs

theorem shapeRecord (hI : Carried I E) (s : ParseState) (hs : I s) :
    Carries I E (shapeRecord s) := by
  rw [CedarSchema.shapeRecord]
  refine reads_eat (fun _ => ?_) fun _ => hI.record s hs
  exact Reads.bind (hI.expect hs) fun _ s h hs => Reads.below h (hI.record s hs)

theorem entityDecl (hI : Carried I E) (p : Preamble) (s : ParseState) (hs : I s) :
    Carries I E (entityDecl p s) := by
  have hnames := hI.afterWord (w := "entity") (hI.commaSeparated fun _ => hI.ident) hs
  rw [CedarSchema.entityDecl]
  refine Reads.bind hnames fun _ s h hs => ?_
  refine reads_eatWord (fun _ => ?_) fun _ => ?_
  · refine Reads.bind (hI.expectWord hs) fun _ s h' hs => ?_
    have h := left_trans h' h
    refine Reads.bind (Reads.below h (hI.enumValues s hs)) fun _ s h hs => ?_
    exact Reads.bind (Reads.below h (hI.declEnd s hs)) fun _ _ _ hs => hs
  · have hparents : Carries I E (parentClause s) := optional hs (hI.afterWord hI.pathRefs hs)
    refine Reads.bind (Reads.upTo h hparents) fun _ s h hs => ?_
    have hshape : Carries I E (shapeClause s) := optional hs (hI.shapeRecord s hs)
    refine Reads.bind (Reads.upTo h hshape) fun _ s h hs => ?_
    have htags : Carries I E (tagsClause s) := optional hs (hI.afterWord hI.type hs)
    refine Reads.bind (Reads.upTo h htags) fun _ s h hs => ?_
    exact Reads.bind (Reads.below h (hI.declEnd s hs)) fun _ _ _ hs => hs

theorem readEnd (hI : Carried I E) {a : AppliesTo} {wanted : List Wanted} (s : ParseState)
    (hs : I s) : Carries I E (a.readEnd s wanted) :=
  Reads.bind (hI.expectFor (hI.takePending s hs)) fun _ _ _ hs => hs

theorem readMember (hI : Carried I E) {a : AppliesTo} (m : Member) (s : ParseState) (hs : I s) :
    Carries I E (a.readMember m s) := by
  cases m with
  | principal => exact Reads.map (hI.pathRefs s hs)
  | resource => exact Reads.map (hI.pathRefs s hs)
  | context => exact Reads.map (hI.type s hs)

theorem readTail (hI : Carried I E) (a : AppliesTo) (s : ParseState) (hs : I s) :
    Carries I E (a.readTail s) := by
  rw [AppliesTo.readTail]
  split
  · exact hI.readEnd s hs
  refine Reads.guarded (fun _ => hI.fault s hs _) fun _ => ?_
  refine Reads.bind (hI.expectWord hs) fun _ s h hs => ?_
  refine Reads.bind (Reads.below h (hI.expect hs)) fun _ s h hs => ?_
  refine Reads.bind (Reads.below h (hI.readMember _ s hs)) fun a s h hs => ?_
  refine reads_eat (fun _ => ?_) fun _ => Reads.below h (hI.readEnd s hs)
  refine Reads.bind (hI.expect hs) fun _ s h' hs => ?_
  have h := left_trans h' h
  exact Reads.below h (readTail hI a s hs)
termination_by s.left

theorem appliesTo (hI : Carried I E) (s : ParseState) (hs : I s) :
    Carries I E (AppliesTo.read s) :=
  Reads.bind (hI.expect hs) fun _ s h hs => Reads.below h (hI.readTail {} s hs)

theorem emptyBraces (hI : Carried I E) (s : ParseState) (hs : I s) :
    Carries I E (emptyBraces s) :=
  Reads.bind (hI.expect hs) fun _ _ h hs => Reads.below h (hI.expectFor hs)

theorem actionDecl (hI : Carried I E) (p : Preamble) (s : ParseState) (hs : I s) :
    Carries I E (actionDecl p s) := by
  have hname (s : ParseState) (hs : I s) : Carries I E (actionName s) := hI.name hs
  have hnames := hI.afterWord (w := "action") (hI.commaSeparated hname) hs
  rw [CedarSchema.actionDecl]
  refine Reads.bind hnames fun _ s h hs => ?_
  have hparents : Carries I E (actionParents s) :=
    Reads.map (optional hs (hI.afterWord (hI.oneOrBracketed hI.actionRef) hs))
  refine Reads.bind (Reads.upTo h hparents) fun _ s h hs => ?_
  have happlies : Carries I E (appliesToClause s) := optional hs (hI.afterWord hI.appliesTo hs)
  refine Reads.bind (Reads.upTo h happlies) fun _ s h hs => ?_
  have hnothing : Carries I E (attributesClause s) :=
    optional hs (hI.afterWord hI.emptyBraces hs)
  refine Reads.bind (Reads.upTo h hnothing) fun _ s h hs => ?_
  exact Reads.bind (Reads.below h (hI.declEnd s hs)) fun _ _ _ hs => hs

theorem commonTypeDecl (hI : Carried I E) (p : Preamble) (s : ParseState) (hs : I s) :
    Carries I E (commonTypeDecl p s) := by
  refine Reads.bind (hI.expectWord hs) fun _ s h hs => ?_
  refine Reads.bind (Reads.below h (hI.ident hs)) fun _ s' h hs' => ?_
  refine Reads.guarded (fun _ => hI.fault s hs _) fun _ => ?_
  refine Reads.bind (Reads.below h (hI.expect hs')) fun _ s h hs => ?_
  refine Reads.bind (Reads.below h (hI.type s hs)) fun _ s h hs => ?_
  exact Reads.bind (Reads.below h (hI.declEnd s hs)) fun _ _ _ hs => hs

theorem decl (hI : Carried I E) (p : Preamble) (s : ParseState) (hs : I s) :
    Carries I E (Decl.read p s) := by
  rw [Decl.read]
  split
  · exact hI.entityDecl p s hs
  · exact hI.actionDecl p s hs
  · exact hI.commonTypeDecl p s hs
  · exact hI.fault s hs _

/-! ## Blocks and files -/

theorem blockTail (hI : Carried I E) (s : ParseState) (hs : I s) : Carries I E (blockTail s) := by
  rw [blockTail.eq_def]
  split
  · exact Reads.bind (hI.expect (hI.takePending s hs)) fun _ _ _ hs => hs
  · exact hI.fault s hs _
  · refine Reads.bind (hI.preamble s hs) fun p s h hs => ?_
    refine Reads.bind (Reads.behind h (hI.decl p s hs)) fun _ s h hs => ?_
    exact Reads.bind (Reads.below h (blockTail hI s hs)) fun _ _ _ hs => hs
termination_by s.left

theorem namespaceBlock (hI : Carried I E) (p : Preamble) (s : ParseState) (hs : I s) :
    Carries I E (NamespaceBlock.read p s) := by
  refine Reads.bind (hI.afterWord (w := "namespace") hI.path hs) fun _ s h hs => ?_
  refine Reads.bind (Reads.below h (hI.expect hs)) fun _ s h hs => ?_
  exact Reads.bind (Reads.below h (hI.blockTail s hs)) fun _ s _ hs => hI.takeInline s hs

/-- A file is read up to its end, in a state of which `I` holds. -/
theorem fileItems (hI : Carried I E) (s : ParseState) (hs : I s) :
    Ends E (fileItems s) fun _ => ∃ s', I s' ∧ s'.lookahead = .eof := by
  rw [fileItems.eq_def]
  split
  · rename_i hl
    exact ⟨s, hs, hl⟩
  refine Reads.bindEnds (hI.preamble s hs) fun p s h hs => ?_
  dsimp only
  split
  · refine Reads.bindEnds (Reads.behind h (hI.namespaceBlock p s hs)) fun _ s _ hs => ?_
    exact Ends.bind (fileItems hI s hs) fun _ hend => hend
  · exact hI.fault s hs _
  · refine Reads.bindEnds (Reads.behind h (hI.decl p s hs)) fun _ s _ hs => ?_
    exact Ends.bind (fileItems hI s hs) fun _ hend => hend
termination_by s.left

end Carried

end CedarSchema
