import Mathlib
import CedarSchema.Proofs.Parse.Stream

/-
  No comment is lost. Along a reading the comments come to the same: those the trees read so far
  hold, those that wait to be taken, and those still ahead. Every parsing function keeps that sum,
  whatever the order in which the nodes take their comments; where a file ends nothing waits and
  nothing is ahead, so that its tree holds every comment of the text, each as often as it is there.
  So does the text that the tree is printed as.
-/

namespace CedarSchema

open ParseState

/-! ## The sum along a reading -/

namespace ParseState

/-- On the way from `s₀` to `s` the comments `held` have been taken, and no failure has been read
over. -/
structure Takes (s₀ : ParseState) (held : Multiset String) (s : ParseState) : Prop where
  sum : held + s.remarks = s₀.remarks
  clean : s.Clean → s₀.Clean

/-- The reading ends, if not with a failure, where besides `held` the comments of the value have
been taken. -/
def Keeps {n : Nat} {α : Type} (s₀ : ParseState) (held : Multiset String) (f : α → Multiset String)
    (r : Except ParseError (Reading n α)) : Prop :=
  Reads (fun _ => True) r fun x s => s₀.Takes (held + f x) s

/-- The reading ends, if not with a failure, where no comments but `held` have been taken. -/
def Passes {n : Nat} {α : Type} (s₀ : ParseState) (held : Multiset String)
    (r : Except ParseError (Reading n α)) : Prop :=
  Reads (fun _ => True) r fun _ s => s₀.Takes held s

variable {s₀ s : ParseState} {held held' : Multiset String} {α : Type}

theorem Takes.refl (s : ParseState) : s.Takes 0 s := ⟨zero_add s.remarks, id⟩

theorem Takes.of_eq (hs : s₀.Takes held s) (h : held = held') : s₀.Takes held' s := h ▸ hs

theorem passes_take {wanted : List Wanted} {accept : Lexeme → Option α} (hs : s₀.Takes held s) :
    Passes s₀ held (s.take wanted accept) := by
  refine (reads_take_ahead (fun _ _ => trivial) fun _ => trivial).imp ?_
  exact fun _ s' ⟨_, hsum, hclean⟩ => ⟨by rw [hsum, hs.sum], fun h => hs.clean (hclean.1 h)⟩

theorem passes_expectFor {wanted : List Wanted} {p : Punct} (hs : s₀.Takes held s) :
    Passes s₀ held (s.expectFor wanted p) := passes_take hs

theorem passes_expect {p : Punct} (hs : s₀.Takes held s) : Passes s₀ held (s.expect p) :=
  passes_expectFor hs

theorem passes_expectWord {w : String} (hs : s₀.Takes held s) :
    Passes s₀ held (s.expectWord w) := passes_take hs

theorem passes_ident (hs : s₀.Takes held s) : Passes s₀ held s.ident := passes_take hs

theorem passes_stringLiteral (hs : s₀.Takes held s) : Passes s₀ held s.stringLiteral :=
  passes_take hs

theorem passes_name {wanted : List Wanted} (hs : s₀.Takes held s) :
    Passes s₀ held (s.name wanted) := passes_take hs

theorem keeps_optional {begins : List Lexeme} {f : α → Multiset String}
    {read : (s : ParseState) → Except ParseError (Reading s.left α)} (hs : s₀.Takes held s)
    (hread : Keeps s₀ held f (read s)) :
    Keeps s₀ held (fun o => o.elim 0 f) (s.optional begins read) :=
  reads_optional (fun _ => hread) fun _ => hs.of_eq (add_zero held).symm

theorem passes_optional {begins : List Lexeme}
    {read : (s : ParseState) → Except ParseError (Reading s.left α)} (hs : s₀.Takes held s)
    (hread : Passes s₀ held (read s)) : Passes s₀ held (s.optional begins read) :=
  reads_optional (fun _ => hread) fun _ => hs

theorem keeps_afterWord {w : String} {f : α → Multiset String}
    {read : (s : ParseState) → Except ParseError (Reading s.left α)}
    (hread : ∀ s, s₀.Takes held s → Keeps s₀ held f (read s)) (hs : s₀.Takes held s) :
    Keeps s₀ held f (afterWord w read s) :=
  reads_afterWord (passes_expectWord hs) hread

theorem passes_afterWord {w : String}
    {read : (s : ParseState) → Except ParseError (Reading s.left α)}
    (hread : ∀ s, s₀.Takes held s → Passes s₀ held (read s)) (hs : s₀.Takes held s) :
    Passes s₀ held (afterWord w read s) :=
  reads_afterWord (passes_expectWord hs) hread

/-! ## Taking -/

theorem Takes.takePending (hs : s₀.Takes held s) :
    s₀.Takes (held + (s.pendingTexts : Multiset String)) s.takePending := by
  refine ⟨?_, hs.clean⟩
  rw [← hs.sum, add_assoc]
  show held + (_ + (0 + _)) = _
  rw [zero_add]
  rfl

theorem coe_eraseP {l : List Remark} {p : Remark → Bool} :
    (((l.find? p).map Remark.text).toList : Multiset String) +
      ((l.eraseP p).map Remark.text : Multiset String) = (l.map Remark.text : Multiset String) := by
  induction l with
  | nil => rfl
  | cons r rs ih =>
    cases hp : p r with
    | true =>
      rw [List.find?_cons_of_pos hp, List.eraseP_cons_of_pos hp]
      rfl
    | false =>
      have hp : ¬p r = true := by simp [hp]
      rw [List.find?_cons_of_neg hp, List.eraseP_cons_of_neg hp, List.map_cons, List.map_cons,
        ← Multiset.cons_coe, ← Multiset.cons_coe, Multiset.add_cons, ih]

theorem Takes.takeInline (hs : s₀.Takes held s) :
    s₀.Takes (held + (s.inlineText.toList : Multiset String)) s.takeInline := by
  refine ⟨?_, hs.clean⟩
  have hpending : (s.inlineText.toList : Multiset String) + s.takeInline.pendingTexts =
      s.pendingTexts := coe_eraseP
  rw [← hs.sum, remarks, remarks, ← hpending, add_assoc, add_assoc]
  rfl

end ParseState

theorem all_nodeComments (before : List String) (s : ParseState) :
    (nodeComments before s).all = (before : Multiset String) + s.inlineText.toList :=
  add_zero _

variable {s₀ : ParseState} {held : Multiset String}

/-! ## What holds no comments -/

section

variable {α : Type} {item : (s : ParseState) → Except ParseError (Reading s.left α)}

theorem passes_pathTail (s : ParseState) (hs : s₀.Takes held s) :
    Passes s₀ held (pathTail s) := by
  rw [pathTail]
  refine reads_eat (fun _ => ?_) fun _ => hs
  refine Reads.bind (passes_expect hs) fun _ s h hs => ?_
  refine Reads.bind (Reads.below h (passes_ident hs)) fun _ s h hs => ?_
  exact Reads.bind (Reads.upTo h (passes_pathTail s hs)) fun _ _ _ hs => hs
termination_by s.left

theorem passes_path (s : ParseState) (hs : s₀.Takes held s) : Passes s₀ held (Path.read s) := by
  refine Reads.bind (passes_ident hs) fun _ s h hs => ?_
  exact Reads.bind (Reads.upTo h (passes_pathTail s hs)) fun _ _ _ hs => hs

theorem passes_bracketTail (hitem : ∀ s, s₀.Takes held s → Passes s₀ held (item s))
    (s : ParseState) (hs : s₀.Takes held s) : Passes s₀ held (bracketTail item s) := by
  rw [bracketTail]
  refine reads_eat (fun _ => ?_) fun _ => ?_
  · exact Reads.bind (passes_expect hs) fun _ _ _ hs => hs
  refine Reads.bind (hitem s hs) fun _ s h hs => ?_
  refine reads_eat (fun _ => ?_) fun _ => ?_
  · refine Reads.bind (passes_expect hs) fun _ s h' hs => ?_
    have h := left_trans h' h
    exact Reads.bind (Reads.below h (passes_bracketTail hitem s hs)) fun _ _ _ hs => hs
  · exact Reads.bind (Reads.below h (passes_expectFor hs)) fun _ _ _ hs => hs
termination_by s.left

theorem passes_oneOrBracketed (hitem : ∀ s, s₀.Takes held s → Passes s₀ held (item s))
    (s : ParseState) (hs : s₀.Takes held s) : Passes s₀ held (oneOrBracketed item s) := by
  rw [oneOrBracketed]
  refine reads_eat (fun _ => ?_) fun _ => Reads.map (hitem s hs)
  exact Reads.bind (passes_expect hs) fun _ s h hs => Reads.below h (passes_bracketTail hitem s hs)

theorem passes_commaSeparated (hitem : ∀ s, s₀.Takes held s → Passes s₀ held (item s))
    (s : ParseState) (hs : s₀.Takes held s) : Passes s₀ held (commaSeparated item s) := by
  rw [commaSeparated]
  refine Reads.bind (hitem s hs) fun _ s h hs => ?_
  refine reads_eat (fun _ => ?_) fun _ => hs
  refine Reads.bind (passes_expect hs) fun _ s h' hs => ?_
  have h := left_trans h' h
  exact Reads.bind (Reads.below h (passes_commaSeparated hitem s hs)) fun _ _ _ hs => hs
termination_by s.left

theorem passes_pathRefs (s : ParseState) (hs : s₀.Takes held s) : Passes s₀ held (pathRefs s) :=
  passes_oneOrBracketed passes_path s hs

theorem passes_enumValues (s : ParseState) (hs : s₀.Takes held s) :
    Passes s₀ held (enumValues s) := by
  have hlist : Passes s₀ held (stringList s) :=
    Reads.bind (passes_expect hs) fun _ s h hs =>
      Reads.below h (passes_bracketTail (fun _ => passes_stringLiteral) s hs)
  refine Reads.bind hlist fun _ s _ hs => ?_
  dsimp only
  split
  · trivial
  · exact hs

theorem passes_actionRefTail (start : Position) (segments : List String) (s : ParseState)
    (hs : s₀.Takes held s) : Passes s₀ held (actionRefTail start segments s) := by
  rw [actionRefTail.eq_def]
  refine reads_eat (fun _ => ?_) fun _ => ?_
  · refine Reads.bind (passes_expect hs) fun _ s h hs => ?_
    dsimp only
    split
    · exact Reads.bind (Reads.below h (passes_stringLiteral hs)) fun _ _ _ hs => hs
    · refine Reads.bind (Reads.below h (passes_ident hs)) fun x s h hs => ?_
      have htail := passes_actionRefTail start (segments ++ [x]) s hs
      exact Reads.bind (Reads.upTo h htail) fun _ _ _ hs => hs
    · trivial
  · dsimp only
    split
    · exact hs
    · trivial
termination_by s.left

theorem passes_actionRef (s : ParseState) (hs : s₀.Takes held s) :
    Passes s₀ held (ActionRef.read s) := by
  rw [ActionRef.read]
  split
  · exact Reads.map (passes_stringLiteral hs)
  · refine Reads.bind (passes_ident hs) fun x s h hs => Reads.upTo h ?_
    exact passes_actionRefTail _ [x] s hs

theorem passes_annotationValue {s : ParseState} (hs : s₀.Takes held s) :
    Passes s₀ held (annotationValue s) := by
  refine Reads.bind (passes_expect hs) fun _ s h hs => ?_
  refine Reads.bind (Reads.below h (passes_stringLiteral hs)) fun _ s h hs => ?_
  exact Reads.bind (Reads.below h (passes_expect hs)) fun _ _ _ hs => hs

theorem passes_annotationList (keys : List String) (s : ParseState) (hs : s₀.Takes held s) :
    Passes s₀ held (annotationList keys s) := by
  rw [annotationList]
  refine reads_eat (fun _ => ?_) fun _ => hs
  refine Reads.bind (passes_expect hs) fun _ s h hs => ?_
  refine Reads.bind (Reads.below h (passes_ident hs)) fun key s h hs => ?_
  refine Reads.guarded (fun _ => trivial) fun _ => ?_
  have hvalue : Passes s₀ held (s.optional [.punct .leftParen] annotationValue) :=
    passes_optional hs (passes_annotationValue hs)
  refine Reads.bind (Reads.upTo h hvalue) fun _ s h hs => ?_
  have htail := passes_annotationList (key :: keys) s hs
  exact Reads.bind (Reads.upTo h htail) fun _ _ _ hs => hs
termination_by s.left

theorem passes_presence {s : ParseState} (hs : s₀.Takes held s) : Passes s₀ held (presence s) :=
  Reads.map (passes_optional hs (passes_expect hs))

theorem passes_emptyBraces (s : ParseState) (hs : s₀.Takes held s) :
    Passes s₀ held (emptyBraces s) :=
  Reads.bind (passes_expect hs) fun _ _ h hs => Reads.below h (passes_expectFor hs)

end

/-! ## Nodes -/

/-- The comments before a node, taken with its annotations. -/
def Preamble.comments (p : Preamble) : Multiset String := (p.before : Multiset String)

theorem keeps_preamble {s : ParseState} (hs : s₀.Takes held s) :
    Keeps s₀ held Preamble.comments (Preamble.read s) := by
  refine Reads.bind (passes_annotationList [] _ hs.takePending) fun _ s' _ hs' => ?_
  refine hs'.takePending.of_eq ?_
  show _ = held + ((s.pendingTexts ++ s'.pendingTexts : List String) : Multiset String)
  rw [← Multiset.coe_add, add_assoc]

/-- A node that ends where its comment behind it is taken has the comments before it and that. -/
theorem takes_nodeComments {p : Preamble} {inner : Multiset String} {s : ParseState}
    (hs : s₀.Takes (held + p.comments + inner) s) :
    s₀.Takes (held + ((nodeComments p.before s).all + inner)) s.takeInline :=
  hs.takeInline.of_eq (by rw [all_nodeComments, Preamble.comments]; abel)

theorem keeps_recordEnd {wanted : List Wanted} {s : ParseState} (hs : s₀.Takes held s) :
    Reads (fun _ => True) (recordEnd s wanted) fun r s' =>
      r.attributes = [] ∧ s₀.Takes (held + r.comments.all) s' := by
  refine Reads.bind (passes_expectFor hs.takePending) fun _ s' _ hs' => ⟨rfl, hs'.of_eq ?_⟩
  simp [Comments.all]

theorem Record.allComments_cons (a : Attribute TypeExpr) (r : Record TypeExpr) :
    Record.allComments { r with attributes := a :: r.attributes } =
      a.comments.all + a.type.allComments + Record.allComments r := by
  obtain ⟨attributes, comments⟩ := r
  exact add_assoc _ (attributeComments attributes) comments.all

mutual

theorem keeps_type (s : ParseState) {held : Multiset String} (hs : s₀.Takes held s) :
    Keeps s₀ held TypeExpr.allComments (TypeExpr.read s) := by
  have hpath {p : Path} {s : ParseState} (hs : s₀.Takes held s) :
      s₀.Takes (held + (TypeExpr.path p).allComments) s := hs.of_eq (add_zero held).symm
  rw [TypeExpr.read]
  split
  · exact Reads.map (keeps_record s hs)
  · refine Reads.bind (passes_path s hs) fun p s h hs => ?_
    dsimp only
    split
    · refine reads_eat (fun _ => ?_) fun _ => hpath hs
      refine Reads.bind (passes_expect hs) fun _ s h' hs => ?_
      have h := left_trans h' h
      refine Reads.bind (Reads.below h (keeps_type s hs)) fun t s h hs => ?_
      exact Reads.bind (Reads.below h (passes_expect hs)) fun _ _ _ hs => hs
    · exact hpath hs
  · trivial
termination_by (s.left, 1)

theorem keeps_record (s : ParseState) {held : Multiset String} (hs : s₀.Takes held s) :
    Keeps s₀ held Record.allComments (Record.read s) := by
  rw [Record.read]
  exact Reads.bind (passes_expect hs) fun _ s h hs => Reads.below h (keeps_recordTail [] s hs)
termination_by (s.left, 0)

theorem keeps_recordTail (names : List String) (s : ParseState) {held : Multiset String}
    (hs : s₀.Takes held s) : Keeps s₀ held Record.allComments (recordTail names s) := by
  rw [recordTail]
  split
  · refine (keeps_recordEnd hs).imp fun r s' ⟨hnil, hs'⟩ => hs'.of_eq ?_
    obtain ⟨_, comments⟩ := r
    cases hnil
    exact congrArg (held + ·) (zero_add comments.all).symm
  refine Reads.bind (keeps_preamble hs) fun p s h hs => ?_
  refine Reads.bind (Reads.behind h (passes_name hs)) fun name s h hs => ?_
  refine Reads.guarded (fun _ => trivial) fun _ => ?_
  refine Reads.bind (Reads.upTo h (passes_presence hs)) fun _ s h hs => ?_
  refine Reads.bind (Reads.below h (passes_expect hs)) fun _ s h hs => ?_
  refine Reads.bind (Reads.below h (keeps_type s hs)) fun type s h hs => ?_
  refine reads_eat (fun _ => ?_) fun _ => ?_
  · refine Reads.bind (passes_expect hs) fun _ s h' hs => ?_
    have h := left_trans h' h
    have htail := keeps_recordTail (name :: names) s.takeInline (takes_nodeComments hs)
    refine Reads.bind (Reads.below h htail) fun r s _ hs => hs.of_eq ?_
    rw [Record.allComments_cons, add_assoc]
  · have hs := takes_nodeComments hs
    refine Reads.bind (Reads.below h (keeps_recordEnd hs)) fun r s _ ⟨hnil, hs⟩ => hs.of_eq ?_
    obtain ⟨_, comments⟩ := r
    cases hnil
    simp [Record.allComments, attributeComments, add_assoc]
termination_by (s.left, 2)

end

/-! ## Declarations -/

theorem keeps_declEnd {p : Preamble} {wanted : List Wanted} {inner : Multiset String}
    {s : ParseState} (hs : s₀.Takes (held + p.comments + inner) s) :
    Reads (fun _ => True) (declEnd p.before s wanted) fun c s' =>
      s₀.Takes (held + (c.all + inner)) s' :=
  Reads.bind (passes_expectFor hs) fun _ _ _ hs => takes_nodeComments hs

theorem keeps_shapeRecord {s : ParseState} (hs : s₀.Takes held s) :
    Keeps s₀ held Record.allComments (shapeRecord s) := by
  rw [shapeRecord]
  refine reads_eat (fun _ => ?_) fun _ => keeps_record s hs
  exact Reads.bind (passes_expect hs) fun _ s h hs => Reads.below h (keeps_record s hs)

theorem keeps_entityDecl {p : Preamble} {s : ParseState} (hs : s₀.Takes (held + p.comments) s) :
    Keeps s₀ held Decl.allComments (entityDecl p s) := by
  have hnames := passes_afterWord (w := "entity")
    (passes_commaSeparated fun _ => passes_ident) hs
  rw [entityDecl]
  refine Reads.bind hnames fun names s h hs => ?_
  refine reads_eatWord (fun _ => ?_) fun _ => ?_
  · refine Reads.bind (passes_expectWord hs) fun _ s h' hs => ?_
    have h := left_trans h' h
    refine Reads.bind (Reads.below h (passes_enumValues s hs)) fun values s h hs => ?_
    have hs := hs.of_eq (add_zero _).symm
    exact Reads.bind (Reads.below h (keeps_declEnd hs)) fun _ _ _ hs => hs
  · have hparents : Passes s₀ _ (parentClause s) :=
      passes_optional hs (passes_afterWord passes_pathRefs hs)
    refine Reads.bind (Reads.upTo h hparents) fun parents s h hs => ?_
    have hshape : Keeps s₀ _ _ (shapeClause s) := keeps_optional hs (keeps_shapeRecord hs)
    refine Reads.bind (Reads.upTo h hshape) fun shape s h hs => ?_
    have htags : Keeps s₀ _ _ (tagsClause s) :=
      keeps_optional hs (keeps_afterWord (fun s => keeps_type s) hs)
    refine Reads.bind (Reads.upTo h htags) fun tags s h hs => ?_
    have hs := hs.of_eq (add_assoc _ _ _)
    exact Reads.bind (Reads.below h (keeps_declEnd hs)) fun _ _ _ hs => hs

theorem keeps_readEnd {a : AppliesTo} (ha : a.comments = {}) {wanted : List Wanted}
    {s : ParseState} (hs : s₀.Takes (held + a.allComments) s) :
    Keeps s₀ held AppliesTo.allComments (a.readEnd s wanted) := by
  refine Reads.bind (passes_expectFor hs.takePending) fun _ s' _ hs' => hs'.of_eq ?_
  simp [AppliesTo.allComments, ha, Comments.all, add_assoc]

theorem keeps_readMember {a : AppliesTo} (ha : a.comments = {}) {m : Member}
    (hm : a.has m = false) {s : ParseState} (hs : s₀.Takes (held + a.allComments) s) :
    Reads (fun _ => True) (a.readMember m s) fun b s' =>
      b.comments = {} ∧ s₀.Takes (held + b.allComments) s' := by
  cases m with
  | principal =>
    exact Reads.map ((passes_pathRefs s hs).imp fun _ _ hs => ⟨ha, hs⟩)
  | resource =>
    exact Reads.map ((passes_pathRefs s hs).imp fun _ _ hs => ⟨ha, hs⟩)
  | context =>
    have hnone : a.context = none := Option.isNone_iff_eq_none.1 (Option.isSome_eq_false_iff.1 hm)
    refine Reads.map ((keeps_type s hs).imp fun t _ hs => ⟨ha, hs.of_eq ?_⟩)
    simp [AppliesTo.allComments, ha, hnone, Comments.all]

theorem keeps_readTail (a : AppliesTo) (ha : a.comments = {}) (s : ParseState)
    (hs : s₀.Takes (held + a.allComments) s) :
    Keeps s₀ held AppliesTo.allComments (a.readTail s) := by
  rw [AppliesTo.readTail]
  split
  · exact keeps_readEnd ha hs
  refine Reads.guarded (fun _ => trivial) fun hm => ?_
  refine Reads.bind (passes_expectWord hs) fun _ s h hs => ?_
  refine Reads.bind (Reads.below h (passes_expect hs)) fun _ s h hs => ?_
  refine Reads.bind (Reads.below h (keeps_readMember ha hm hs)) fun a s h ⟨ha, hs⟩ => ?_
  refine reads_eat (fun _ => ?_) fun _ => Reads.below h (keeps_readEnd ha hs)
  refine Reads.bind (passes_expect hs) fun _ s h' hs => ?_
  have h := left_trans h' h
  exact Reads.below h (keeps_readTail a ha s hs)
termination_by s.left

theorem keeps_appliesTo (s : ParseState) (hs : s₀.Takes held s) :
    Keeps s₀ held AppliesTo.allComments (AppliesTo.read s) := by
  refine Reads.bind (passes_expect hs) fun _ s h hs => Reads.below h ?_
  exact keeps_readTail {} rfl s (hs.of_eq (by simp [AppliesTo.allComments, Comments.all]))

theorem keeps_actionDecl {p : Preamble} {s : ParseState} (hs : s₀.Takes (held + p.comments) s) :
    Keeps s₀ held Decl.allComments (actionDecl p s) := by
  have hname (s : ParseState) (hs : s₀.Takes (held + p.comments) s) :
      Passes s₀ _ (actionName s) := passes_name hs
  have hnames := passes_afterWord (w := "action") (passes_commaSeparated hname) hs
  rw [actionDecl]
  refine Reads.bind hnames fun names s h hs => ?_
  have hparents : Passes s₀ _ (actionParents s) :=
    Reads.map (passes_optional hs (passes_afterWord (passes_oneOrBracketed passes_actionRef) hs))
  refine Reads.bind (Reads.upTo h hparents) fun parents s h hs => ?_
  have happlies : Keeps s₀ _ _ (appliesToClause s) :=
    keeps_optional hs (keeps_afterWord keeps_appliesTo hs)
  refine Reads.bind (Reads.upTo h happlies) fun appliesTo s h hs => ?_
  have hnothing : Passes s₀ _ (attributesClause s) :=
    passes_optional hs (passes_afterWord passes_emptyBraces hs)
  refine Reads.bind (Reads.upTo h hnothing) fun _ s h hs => ?_
  exact Reads.bind (Reads.below h (keeps_declEnd hs)) fun _ _ _ hs => hs

theorem keeps_commonTypeDecl {p : Preamble} {s : ParseState}
    (hs : s₀.Takes (held + p.comments) s) :
    Keeps s₀ held Decl.allComments (commonTypeDecl p s) := by
  refine Reads.bind (passes_expectWord hs) fun _ s h hs => ?_
  refine Reads.bind (Reads.below h (passes_ident hs)) fun name s h hs => ?_
  refine Reads.guarded (fun _ => trivial) fun _ => ?_
  refine Reads.bind (Reads.below h (passes_expect hs)) fun _ s h hs => ?_
  refine Reads.bind (Reads.below h (keeps_type s hs)) fun type s h hs => ?_
  exact Reads.bind (Reads.below h (keeps_declEnd hs)) fun _ _ _ hs => hs

theorem keeps_decl {p : Preamble} {s : ParseState} (hs : s₀.Takes (held + p.comments) s) :
    Keeps s₀ held Decl.allComments (Decl.read p s) := by
  rw [Decl.read]
  split
  · exact keeps_entityDecl hs
  · exact keeps_actionDecl hs
  · exact keeps_commonTypeDecl hs
  · trivial

/-! ## Blocks and files -/

theorem keeps_blockTail (s : ParseState) {held : Multiset String} (hs : s₀.Takes held s) :
    Keeps s₀ held (fun x => (x.1.map Decl.allComments).sum + (x.2 : Multiset String))
      (blockTail s) := by
  rw [blockTail.eq_def]
  split
  · refine Reads.bind (passes_expect hs.takePending) fun _ s' _ hs' => hs'.of_eq ?_
    simp
  · trivial
  · refine Reads.bind (keeps_preamble hs) fun p s h hs => ?_
    refine Reads.bind (Reads.behind h (keeps_decl hs)) fun d s h hs => ?_
    refine Reads.bind (Reads.below h (keeps_blockTail s hs)) fun x s _ hs => hs.of_eq ?_
    simp [add_assoc]
termination_by s.left

theorem keeps_namespaceBlock {p : Preamble} {s : ParseState}
    (hs : s₀.Takes (held + p.comments) s) :
    Keeps s₀ held NamespaceBlock.allComments (NamespaceBlock.read p s) := by
  have hpath := passes_afterWord (w := "namespace") passes_path hs
  refine Reads.bind hpath fun path s h hs => ?_
  refine Reads.bind (Reads.below h (passes_expect hs)) fun _ s h hs => ?_
  refine Reads.bind (Reads.below h (keeps_blockTail s hs)) fun x s _ hs => ?_
  refine (takes_nodeComments hs).of_eq ?_
  simp only [NamespaceBlock.allComments, Comments.all, nodeComments, Multiset.coe_nil]
  abel

/-- The tree of a file holds what has been taken, once what holds its items is put with it. -/
theorem keeps_fileItems (s : ParseState) {held : Multiset String} (hp : s.Proper)
    (hs : s₀.Takes held s) :
    Ends (fun _ => True) (fileItems s) fun f =>
      held + f.allComments = s₀.remarks ∧ s₀.Clean := by
  rw [fileItems.eq_def]
  split
  · rename_i hl
    obtain ⟨pos, hf⟩ := hp.front_eof hl
    refine ⟨?_, hs.clean ?_⟩
    · rw [← hs.sum, remarks, hf]
      simp [Schema.allComments]
    · rw [Clean, hf]
      trivial
  refine Reads.bindEnds (.and (gives_preamble hp) (keeps_preamble hs)) fun p s h => ?_
  rintro ⟨⟨hp, hw⟩, hs⟩
  dsimp only
  split
  · have hblock := Reads.and (gives_namespaceBlock hw hp) (keeps_namespaceBlock hs)
    refine Reads.bindEnds (Reads.behind h hblock) fun b s _ hb => ?_
    obtain ⟨⟨hp, _⟩, hs⟩ := hb
    refine Ends.bind (keeps_fileItems s hp hs) fun f hf => ?_
    obtain ⟨hsum, hc⟩ := hf
    refine ⟨?_, hc⟩
    rw [← hsum]
    simp [Schema.allComments, Item.allComments, add_assoc]
  · trivial
  · have hdecl := Reads.and (gives_decl hw hp) (keeps_decl hs)
    refine Reads.bindEnds (Reads.behind h hdecl) fun d s _ hd => ?_
    obtain ⟨⟨hp, _⟩, hs⟩ := hd
    refine Ends.bind (keeps_fileItems s hp hs) fun f hf => ?_
    obtain ⟨hsum, hc⟩ := hf
    refine ⟨?_, hc⟩
    rw [← hsum]
    simp [Schema.allComments, Item.allComments, add_assoc]
termination_by s.left

/-! ## Whole texts -/

namespace Piece

theorem clean_tokens (ps : List Piece) (pos : Position) : (tokens pos ps).Clean := by
  induction ps generalizing pos with
  | nil => trivial
  | cons p ps ih => cases p <;> exact ih _

theorem remarks_tokens (ps : List Piece) (pos : Position) :
    (tokens pos ps).remarks = remarksOf ps := by
  induction ps generalizing pos with
  | nil => rfl
  | cons p ps ih =>
    rw [remarksOf_cons]
    cases p with
    | lexeme l => exact congrArg (l.remarks + ·) (ih _)
    | _ => exact (ih _).trans (zero_add _).symm

end Piece

namespace Schema

/-- The canonical text has all its tokens, and they say what the layout says. -/
theorem Writable.ends_tokenize_format {s : Schema} (h : s.Writable) :
    Ends (fun _ => False) (tokenize s.format) fun tokens =>
      commentsOf tokens = (Piece.tokens .start s.layout).remarks ∧
        wordsOf tokens = (Piece.tokens .start s.layout).words := by
  have hstream : TokenStream.ofText s.format = Piece.tokens .start s.layout :=
    Piece.ofCursor_textOf h.legible .start
  have hreadable : (TokenStream.ofText s.format).Readable := TokenStream.readable_ofCursor _
  rw [tokenize, hstream]
  rw [hstream] at hreadable
  have htokens := TokenStream.ends_toExcept hreadable
  exact (htokens.impError fun _ h => h (Piece.clean_tokens _ _)).imp fun _ h => h.2

/-- The canonical text has the comments of the tree. -/
theorem Writable.exists_tokenize_format {s : Schema} (h : s.Writable) :
    ∃ tokens, tokenize s.format = .ok tokens ∧ commentsOf tokens = s.allComments := by
  obtain ⟨tokens, ht, hcomments, -⟩ := h.ends_tokenize_format.exists_ok
  exact ⟨tokens, ht, by rw [hcomments, Piece.remarks_tokens, h.remarksOf_layout]⟩

/-- A text that is read has only tokens, and their comments are those of the tree. -/
theorem holds_comments (text : String) :
    Ends (fun _ => True) (parse text) fun s =>
      ∃ tokens, tokenize text = .ok tokens ∧ commentsOf tokens = s.allComments := by
  refine Ends.bind ((ends_start text).impError fun _ _ => trivial) fun s ⟨hp, hs⟩ => ?_
  refine (keeps_fileItems s hp (.refl s)).imp fun f ⟨hf, hc⟩ => ?_
  have htokens := TokenStream.ends_toExcept (TokenStream.readable_ofCursor (.ofText text))
  have htokens := htokens.impError fun _ h => h (hs.clean.1 hc)
  obtain ⟨tokens, ht, _, hr, _⟩ := htokens.exists_ok
  refine ⟨tokens, ht, ?_⟩
  calc commentsOf tokens
    _ = (TokenStream.ofText text).remarks := hr
    _ = s.remarks := (hs.remarks.trans (zero_add _)).symm
    _ = f.allComments := hf.symm.trans (zero_add _)

/-- Of the comments of a text that is read none is lost, doubled or changed: the tree holds the
same ones, and so does the text that the tree is printed as. -/
theorem comments_of_parse {text : String} {s : Schema} (h : parse text = .ok s) :
    (∃ tokens, tokenize text = .ok tokens ∧ commentsOf tokens = s.allComments) ∧
      ∃ tokens, tokenize s.format = .ok tokens ∧ commentsOf tokens = s.allComments := by
  obtain ⟨hw, -⟩ := (written_of_parse text).of_ok h
  exact ⟨(holds_comments text).of_ok h, hw.exists_tokenize_format⟩

/-- Equal comments are counted, and those in a clause that leaves no trace are kept. -/
theorem comments_of_parse_repeated :
    let text := "action a attributes \x7b/* b */\x7d; // c\ntype T = Set</* b */Long>;"
    ∃ s, parse text = .ok s ∧ s.allComments = {"// c", "/* b */", "/* b */"} ∧
      (∃ tokens, tokenize text = .ok tokens ∧ commentsOf tokens = s.allComments) ∧
      ∃ tokens, tokenize s.format = .ok tokens ∧ commentsOf tokens = s.allComments := by
  intro text
  let a : ActionDecl := { names := ["a"], comments := { inline := some "// c" } }
  let t : CommonTypeDecl :=
    { name := "T", type := .set (.path ⟨["Long"]⟩), comments := { before := ["/* b */"] } }
  have h : parse text = .ok ⟨[.decl (.action a), .decl (.commonType t)], ["/* b */"]⟩ := by
    cbv
  exact ⟨_, h, rfl, comments_of_parse h⟩

end Schema

end CedarSchema
