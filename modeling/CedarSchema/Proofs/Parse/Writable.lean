import CedarSchema.Proofs.Parse.Reads
import CedarSchema.Proofs.Schema.Writable

/-
  Whatever is read can be written. The tokens of a text are readable and the comments among them
  are comments; every parsing function keeps this of the state and makes something writable of
  what it reads. No reference that is read names an entity type and nothing else, so the tree that
  is read is its own plain form. The inductions are on the number of tokens ahead, as in the
  parsing functions themselves.
-/

namespace CedarSchema

open Text ParseState

/-! ## Readable tokens -/

/-- All lexemes ahead are readable. -/
def TokenStream.Readable : TokenStream → Prop
  | .eof _ => True
  | .failed _ _ => True
  | .token t rest => t.lexeme.Readable ∧ rest.Readable

theorem TokenStream.readable_ofCursor (c : Cursor) : (TokenStream.ofCursor c).Readable := by
  fun_induction TokenStream.ofCursor c with
  | case1 => trivial
  | case2 => trivial
  | case3 c t c' h ht _ ih =>
    exact ⟨Lexer.readable_of_scan (Cursor.scan_of_next h) ht, ih⟩

namespace ParseState

/-- Nothing ahead is unreadable, and what waits to be taken are comments. -/
structure Proper (s : ParseState) : Prop where
  front : ∀ t rest, s.front = .token t rest → t.lexeme.Readable ∧ rest.Readable
  pending : ∀ r ∈ s.pending, IsComment r.text

/-- The reading ends, if not with a failure, in a proper state with a value of which `P` holds. -/
def Gives {n : Nat} {α : Type} (r : Except ParseError (Reading n α)) (P : α → Prop) : Prop :=
  Reads (fun _ => True) r fun x s => s.Proper ∧ P x

variable {s : ParseState} {α : Type} {P Q : α → Prop}

theorem gives_enter {stream : TokenStream} {pending : List Remark} {last : Position}
    (hs : stream.Readable) (hp : ∀ r ∈ pending, IsComment r.text) :
    Gives (enter pending last stream) fun _ => True := by
  induction stream generalizing pending with
  | eof pos => exact ⟨⟨by simp, hp⟩, trivial⟩
  | failed pos e => trivial
  | token t rest ih =>
    obtain ⟨ht, hrest⟩ := hs
    rw [enter.eq_def]
    dsimp only
    split
    · rename_i text hl
      rw [hl] at ht
      refine Reads.bind (ih hrest ?_) fun _ _ _ h => h
      intro r hr
      rcases List.mem_append.1 hr with hr | hr
      · exact hp r hr
      · rw [List.mem_singleton.1 hr]
        exact ht
    · refine ⟨⟨?_, hp⟩, trivial⟩
      rintro _ _ ⟨⟩
      exact ⟨ht, hrest⟩

theorem gives_take {wanted : List Wanted} {accept : Lexeme → Option α} (hs : s.Proper)
    (ha : ∀ l a, l.Readable → accept l = some a → P a) : Gives (s.take wanted accept) P := by
  refine reads_take (fun t rest a hf hl => ?_) fun _ => trivial
  obtain ⟨ht, hrest⟩ := hs.front t rest hf
  exact (gives_enter hrest hs.pending).imp fun _ _ h => ⟨h.1, ha _ a ht hl⟩

theorem gives_expectFor {wanted : List Wanted} {p : Punct} (hs : s.Proper) :
    Gives (s.expectFor wanted p) fun _ => True := gives_take hs fun _ _ _ _ => trivial

theorem gives_expect {p : Punct} (hs : s.Proper) : Gives (s.expect p) fun _ => True :=
  gives_expectFor hs

theorem gives_expectWord {w : String} (hs : s.Proper) : Gives (s.expectWord w) fun _ => True :=
  gives_take hs fun _ _ _ _ => trivial

theorem gives_ident (hs : s.Proper) : Gives s.ident fun x => isIdent x = true := by
  refine gives_take hs fun l a hl ha => ?_
  split at ha
  · cases ha
    exact hl
  · cases ha

theorem gives_stringLiteral (hs : s.Proper) : Gives s.stringLiteral fun _ => True :=
  gives_take hs fun _ _ _ _ => trivial

theorem gives_name {wanted : List Wanted} (hs : s.Proper) : Gives (s.name wanted) fun _ => True :=
  gives_take hs fun _ _ _ _ => trivial

theorem gives_optional {begins : List Lexeme}
    {read : (s : ParseState) → Except ParseError (Reading s.left α)} {P : Option α → Prop}
    (hs : s.Proper) (hread : Gives (read s) fun a => P (some a)) (hnone : P none) :
    Gives (s.optional begins read) P :=
  reads_optional (fun _ => hread) fun _ => ⟨hs, hnone⟩

/-- What is there is all there is. -/
theorem gives_some {n : Nat} {r : Except ParseError (Reading n α)} (h : Gives r P) :
    Gives r fun a => ∀ x ∈ some a, P x :=
  h.imp fun _ _ ⟨hs, ha⟩ => ⟨hs, by rintro _ ⟨⟩; exact ha⟩

theorem gives_afterWord {w : String}
    {read : (s : ParseState) → Except ParseError (Reading s.left α)}
    (hread : ∀ s, s.Proper → Gives (read s) P) (hs : s.Proper) : Gives (afterWord w read s) P :=
  reads_afterWord ((gives_expectWord hs).imp fun _ _ h => h.1) hread

/-- Where no token is looked at there is none. -/
theorem Proper.front_eof (hs : s.Proper) (hl : s.lookahead = .eof) : ∃ pos, s.front = .eof pos := by
  cases hf : s.front with
  | eof pos => exact ⟨pos, rfl⟩
  | token t rest =>
    rw [lookahead, hf] at hl
    exact absurd hl (Lexeme.eof_not_readable (hs.front t rest hf).1)

/-! ## Comments -/

theorem Proper.takePending (hs : s.Proper) : s.takePending.Proper :=
  ⟨hs.front, by simp [ParseState.takePending]⟩

theorem Proper.pendingTexts (hs : s.Proper) : ∀ text ∈ s.pendingTexts, IsComment text := by
  intro text h
  obtain ⟨r, hr, rfl⟩ := List.mem_map.1 h
  exact hs.pending r hr

theorem Proper.takeInline (hs : s.Proper) : s.takeInline.Proper :=
  ⟨hs.front, fun r hr => hs.pending r (List.mem_of_mem_eraseP hr)⟩

theorem Proper.inlineText (hs : s.Proper) : ∀ text ∈ s.inlineText, IsComment text := by
  intro text h
  obtain ⟨r, hr, rfl⟩ := Option.map_eq_some_iff.1 h
  exact hs.pending r (List.mem_of_find?_eq_some hr)

end ParseState

theorem atNode_nodeComments {before : List String} {s : ParseState}
    (hb : ∀ text ∈ before, IsComment text) (hs : s.Proper) : (nodeComments before s).AtNode where
  before := hb
  inline := hs.inlineText
  remaining := by simp [nodeComments]
  noRemaining := rfl

/-! ## Paths and lists -/

section

variable {α : Type} {P : α → Prop}
  {item : (s : ParseState) → Except ParseError (Reading s.left α)}

theorem gives_pathTail (s : ParseState) (hs : s.Proper) :
    Gives (pathTail s) fun xs => ∀ x ∈ xs, isIdent x = true := by
  rw [pathTail]
  refine reads_eat (fun _ => ?_) fun _ => ⟨hs, by simp⟩
  refine Reads.bind (gives_expect hs) fun _ s h ⟨hs, _⟩ => ?_
  refine Reads.bind (Reads.below h (gives_ident hs)) fun x s h ⟨hs, hx⟩ => ?_
  refine Reads.bind (Reads.upTo h (gives_pathTail s hs)) fun xs s _ ⟨hs, hxs⟩ => ?_
  exact ⟨hs, List.forall_mem_cons.2 ⟨hx, hxs⟩⟩
termination_by s.left

theorem gives_path {s : ParseState} (hs : s.Proper) : Gives (Path.read s) Path.Writable := by
  refine Reads.bind (gives_ident hs) fun x s h ⟨hs, hx⟩ => ?_
  refine Reads.bind (Reads.upTo h (gives_pathTail s hs)) fun xs s _ ⟨hs, hxs⟩ => ?_
  exact ⟨hs, List.cons_ne_nil x xs, List.forall_mem_cons.2 ⟨hx, hxs⟩⟩

theorem gives_bracketTail (hitem : ∀ s, s.Proper → Gives (item s) P) (s : ParseState)
    (hs : s.Proper) : Gives (bracketTail item s) fun xs => ∀ x ∈ xs, P x := by
  rw [bracketTail]
  refine reads_eat (fun _ => ?_) fun _ => ?_
  · exact Reads.bind (gives_expect hs) fun _ s _ ⟨hs, _⟩ => ⟨hs, List.forall_mem_nil P⟩
  refine Reads.bind (hitem s hs) fun x s h ⟨hs, hx⟩ => ?_
  refine reads_eat (fun _ => ?_) fun _ => ?_
  · refine Reads.bind (gives_expect hs) fun _ s h' ⟨hs, _⟩ => ?_
    have h := left_trans h' h
    refine Reads.bind (Reads.below h (gives_bracketTail hitem s hs)) fun xs s _ ⟨hs, hxs⟩ => ?_
    exact ⟨hs, List.forall_mem_cons.2 ⟨hx, hxs⟩⟩
  · refine Reads.bind (Reads.below h (gives_expectFor hs)) fun _ s _ ⟨hs, _⟩ => ?_
    exact ⟨hs, List.forall_mem_singleton.2 hx⟩
termination_by s.left

theorem gives_oneOrBracketed (hitem : ∀ s, s.Proper → Gives (item s) P) (s : ParseState)
    (hs : s.Proper) : Gives (oneOrBracketed item s) fun xs => ∀ x ∈ xs, P x := by
  rw [oneOrBracketed]
  refine reads_eat (fun _ => ?_) fun _ => ?_
  · refine Reads.bind (gives_expect hs) fun _ s h ⟨hs, _⟩ => ?_
    exact Reads.below h (gives_bracketTail hitem s hs)
  · exact Reads.map ((hitem s hs).imp fun _ _ h => ⟨h.1, List.forall_mem_singleton.2 h.2⟩)

theorem gives_commaSeparated (hitem : ∀ s, s.Proper → Gives (item s) P) (s : ParseState)
    (hs : s.Proper) : Gives (commaSeparated item s) fun xs => xs ≠ [] ∧ ∀ x ∈ xs, P x := by
  rw [commaSeparated]
  refine Reads.bind (hitem s hs) fun x s h ⟨hs, hx⟩ => ?_
  refine reads_eat (fun _ => ?_) fun _ => ?_
  · refine Reads.bind (gives_expect hs) fun _ s h' ⟨hs, _⟩ => ?_
    have h := left_trans h' h
    have htail := gives_commaSeparated hitem s hs
    refine Reads.bind (Reads.below h htail) fun xs s _ ⟨hs, _, hxs⟩ => ?_
    exact ⟨hs, List.cons_ne_nil x xs, List.forall_mem_cons.2 ⟨hx, hxs⟩⟩
  · exact ⟨hs, by simp, List.forall_mem_singleton.2 hx⟩
termination_by s.left

theorem gives_pathRefs (s : ParseState) (hs : s.Proper) :
    Gives (pathRefs s) fun ps => ∀ p ∈ ps, p.Writable :=
  gives_oneOrBracketed (fun _ => gives_path) s hs

theorem gives_stringList {s : ParseState} (hs : s.Proper) : Gives (stringList s) fun _ => True := by
  refine Reads.bind (gives_expect hs) fun _ s h ⟨hs, _⟩ => Reads.below h ?_
  have hitem : ∀ s : ParseState, s.Proper → Gives s.stringLiteral fun _ => True :=
    fun _ => gives_stringLiteral
  exact (gives_bracketTail hitem s hs).imp fun _ _ h => ⟨h.1, trivial⟩

end

/-! ## References to actions -/

theorem gives_actionRefTail (start : Position) (segments : List String) (hne : segments ≠ [])
    (hidents : ∀ x ∈ segments, isIdent x = true) (s : ParseState) (hs : s.Proper) :
    Gives (actionRefTail start segments s) ActionRef.Writable := by
  rw [actionRefTail.eq_def]
  refine reads_eat (fun _ => ?_) fun _ => ?_
  · refine Reads.bind (gives_expect hs) ?_
    rintro _ s h ⟨hs, _⟩
    dsimp only
    split
    · refine Reads.bind (Reads.below h (gives_stringLiteral hs)) ?_
      rintro _ s _ ⟨hs, _⟩
      refine ⟨hs, ?_⟩
      rintro _ ⟨⟩
      exact ⟨hne, hidents⟩
    · refine Reads.bind (Reads.below h (gives_ident hs)) ?_
      rintro x s h ⟨hs, hx⟩
      have hidents : ∀ y ∈ segments ++ [x], isIdent y = true :=
        List.forall_mem_append.2 ⟨hidents, List.forall_mem_singleton.2 hx⟩
      have htail := gives_actionRefTail start (segments ++ [x]) (by simp) hidents s hs
      exact Reads.bind (Reads.upTo h htail) fun _ _ _ h => h
    · trivial
  · dsimp only
    split
    · refine ⟨hs, ?_⟩
      rintro _ ⟨⟩
    · trivial
termination_by s.left

theorem gives_actionRef (s : ParseState) (hs : s.Proper) :
    Gives (ActionRef.read s) ActionRef.Writable := by
  rw [ActionRef.read]
  split
  · refine Reads.map ((gives_stringLiteral hs).imp fun _ _ h => ⟨h.1, ?_⟩)
    rintro _ ⟨⟩
  · refine Reads.bind (gives_ident hs) fun x s h ⟨hs, hx⟩ => Reads.upTo h ?_
    exact gives_actionRefTail _ [x] (by simp) (List.forall_mem_singleton.2 hx) s hs

/-! ## Annotations -/

theorem gives_annotationValue {s : ParseState} (hs : s.Proper) :
    Gives (annotationValue s) fun _ => True := by
  refine Reads.bind (gives_expect hs) fun _ s h ⟨hs, _⟩ => ?_
  refine Reads.bind (Reads.below h (gives_stringLiteral hs)) fun _ s h ⟨hs, _⟩ => ?_
  exact Reads.bind (Reads.below h (gives_expect hs)) fun _ _ _ h => h

theorem gives_annotationList (keys : List String) (s : ParseState) (hs : s.Proper) :
    Gives (annotationList keys s) fun as => WritableAnnotations as ∧ ∀ a ∈ as, a.key ∉ keys := by
  rw [annotationList]
  refine reads_eat (fun _ => ?_) fun _ => ⟨hs, ⟨by simp, by simp⟩, by simp⟩
  refine Reads.bind (gives_expect hs) fun _ s h ⟨hs, _⟩ => ?_
  refine Reads.bind (Reads.below h (gives_ident hs)) fun key s h ⟨hs, hkey⟩ => ?_
  refine Reads.guarded (fun _ => trivial) fun hnew => ?_
  have hvalue : Gives (s.optional [.punct .leftParen] annotationValue) fun _ => True :=
    gives_optional hs ((gives_annotationValue hs).imp fun _ _ h => h) trivial
  refine Reads.bind (Reads.upTo h hvalue) fun value s h ⟨hs, _⟩ => ?_
  have htail := gives_annotationList (key :: keys) s hs
  refine Reads.bind (Reads.upTo h htail) fun as s _ ⟨hs, has, hkeys⟩ => ⟨hs, ⟨?_, ?_⟩, ?_⟩
  · exact List.forall_mem_cons.2 ⟨hkey, has.idents⟩
  · refine List.nodup_cons.2 ⟨fun hmem => ?_, has.nodup⟩
    obtain ⟨a, ha, heq⟩ := List.mem_map.1 hmem
    exact hkeys a ha (heq ▸ List.mem_cons_self)
  · refine List.forall_mem_cons.2 ⟨?_, fun a ha hmem => hkeys a ha (List.mem_cons_of_mem _ hmem)⟩
    simpa using hnew
termination_by s.left

/-- What stands before a node can be written there. -/
structure Preamble.Writable (p : Preamble) : Prop where
  before : ∀ text ∈ p.before, IsComment text
  annotations : WritableAnnotations p.annotations

theorem gives_preamble {s : ParseState} (hs : s.Proper) :
    Gives (Preamble.read s) Preamble.Writable := by
  have hlist := gives_annotationList [] s.takePending hs.takePending
  refine Reads.bind hlist fun as s' _ ⟨hs', has, _⟩ => ⟨hs'.takePending, ?_, has⟩
  exact List.forall_mem_append.2 ⟨hs.pendingTexts, hs'.pendingTexts⟩

/-! ## Types -/

/-- Writable, and without a reference that text could not tell apart. -/
def TypeExpr.Written (t : TypeExpr) : Prop := t.Writable ∧ t.plain = t

def Record.Written (r : Record TypeExpr) : Prop := Record.Writable r ∧ Record.plain r = r

theorem gives_presence {s : ParseState} (hs : s.Proper) : Gives (presence s) fun _ => True := by
  refine Reads.map (gives_optional hs ?_ trivial)
  exact (gives_expect hs).imp fun _ _ h => h

theorem gives_recordEnd {wanted : List Wanted} {s : ParseState} (hs : s.Proper) :
    Gives (recordEnd s wanted) fun r => Record.Written r ∧ r.attributes = [] := by
  refine Reads.bind (gives_expectFor hs.takePending) fun _ s' _ ⟨hs', _⟩ => ⟨hs', ⟨?_, rfl⟩, rfl⟩
  exact ⟨trivial, List.nodup_nil, ⟨by simp, by simp, hs.pendingTexts⟩, rfl, rfl⟩

theorem Record.Written.cons {r : Record TypeExpr} (h : Record.Written r) {name : String}
    {type : TypeExpr} {required : Bool} {annotations : List Annotation} {comments : Comments}
    (ht : type.Written) (ha : WritableAnnotations annotations) (hc : comments.AtNode)
    (hn : ∀ a ∈ r.attributes, a.name ≠ name) :
    Record.Written { r with
      attributes := ⟨name, type, required, annotations, comments⟩ :: r.attributes } := by
  obtain ⟨attributes, c⟩ := r
  obtain ⟨⟨hattributes, hnodup, hcomments⟩, hplain⟩ := h
  have hplain : plainAttributes attributes = attributes := congrArg Record.attributes hplain
  refine ⟨⟨⟨⟨ht.1, ha, hc⟩, hattributes⟩, List.nodup_cons.2 ⟨fun hmem => ?_, hnodup⟩, hcomments⟩,
    ?_⟩
  · obtain ⟨a, hmem, heq⟩ := List.mem_map.1 hmem
    exact hn a hmem heq
  · rw [Record.plain, plainAttributes, ht.2, hplain]

mutual

theorem gives_type (s : ParseState) (hs : s.Proper) : Gives (TypeExpr.read s) TypeExpr.Written := by
  rw [TypeExpr.read]
  split
  · refine Reads.map ((gives_record s hs).imp fun r _ ⟨hs, hr⟩ => ⟨hs, hr.1, ?_⟩)
    rw [TypeExpr.plain, hr.2]
  · refine Reads.bind (gives_path hs) fun p s h ⟨hs, hp⟩ => ?_
    dsimp only
    split
    · refine reads_eat (fun _ => ?_) fun _ => ⟨hs, hp, rfl⟩
      refine Reads.bind (gives_expect hs) fun _ s h' ⟨hs, _⟩ => ?_
      have h := left_trans h' h
      refine Reads.bind (Reads.below h (gives_type s hs)) fun t s h ⟨hs, ht⟩ => ?_
      refine Reads.bind (Reads.below h (gives_expect hs)) fun _ s _ ⟨hs, _⟩ => ⟨hs, ht.1, ?_⟩
      rw [TypeExpr.plain, ht.2]
    · exact ⟨hs, hp, rfl⟩
  · trivial
termination_by (s.left, 1)

theorem gives_record (s : ParseState) (hs : s.Proper) : Gives (Record.read s) Record.Written := by
  rw [Record.read]
  refine Reads.bind (gives_expect hs) fun _ s h ⟨hs, _⟩ => Reads.below h ?_
  exact (gives_recordTail [] s hs).imp fun _ _ h => ⟨h.1, h.2.1⟩
termination_by (s.left, 0)

theorem gives_recordTail (names : List String) (s : ParseState) (hs : s.Proper) :
    Gives (recordTail names s) fun r => Record.Written r ∧ ∀ a ∈ r.attributes, a.name ∉ names := by
  rw [recordTail]
  split
  · exact (gives_recordEnd hs).imp fun _ _ ⟨hs, hr, hnil⟩ => ⟨hs, hr, by simp [hnil]⟩
  refine Reads.bind (gives_preamble hs) fun p s h ⟨hs, hp⟩ => ?_
  refine Reads.bind (Reads.behind h (gives_name hs)) fun name s h ⟨hs, _⟩ => ?_
  refine Reads.guarded (fun _ => trivial) fun hnew => ?_
  have hname : name ∉ names := by simpa using hnew
  refine Reads.bind (Reads.upTo h (gives_presence hs)) fun required s h ⟨hs, _⟩ => ?_
  refine Reads.bind (Reads.below h (gives_expect hs)) fun _ s h ⟨hs, _⟩ => ?_
  refine Reads.bind (Reads.below h (gives_type s hs)) fun type s h ⟨hs, ht⟩ => ?_
  refine reads_eat (fun _ => ?_) fun _ => ?_
  · refine Reads.bind (gives_expect hs) fun _ s h' ⟨hs, _⟩ => ?_
    have h := left_trans h' h
    have htail := gives_recordTail (name :: names) s.takeInline hs.takeInline
    have hc := atNode_nodeComments hp.before hs
    refine Reads.bind (Reads.below h htail) fun r s _ ⟨hs, hr, hnames⟩ => ⟨hs, ?_, ?_⟩
    · exact hr.cons ht hp.annotations hc fun a ha heq => hnames a ha (heq ▸ List.mem_cons_self)
    · refine List.forall_mem_cons.2 ⟨hname, fun a ha hmem => ?_⟩
      exact hnames a ha (List.mem_cons_of_mem _ hmem)
  · have hc := atNode_nodeComments hp.before hs
    refine Reads.bind (Reads.below h (gives_recordEnd hs.takeInline)) fun r s _ ⟨hs, hr, hnil⟩ =>
      ⟨hs, ?_, ?_⟩
    · have hcons := @Record.Written.cons r hr name type required _ _ ht hp.annotations hc
        (by simp [hnil])
      rwa [hnil] at hcons
    · exact List.forall_mem_singleton.2 hname
termination_by (s.left, 2)

end

/-! ## Declarations -/

def AppliesTo.Written (a : AppliesTo) : Prop := a.Writable ∧ a.plain = a

def Decl.Written (d : Decl) : Prop := d.Writable ∧ d.plain = d

theorem map_eq_self {α : Type} {f : α → α} {o : Option α} (h : ∀ x ∈ o, f x = x) : o.map f = o := by
  cases o with
  | none => rfl
  | some x => rw [Option.map_some, h x rfl]

theorem map_eq_self_of_mem {α : Type} {f : α → α} {l : List α} (h : ∀ x ∈ l, f x = x) :
    l.map f = l :=
  (List.map_congr_left h).trans (List.map_id' l)

theorem gives_declEnd {before : List String} {wanted : List Wanted} {s : ParseState}
    (hb : ∀ text ∈ before, IsComment text) (hs : s.Proper) :
    Gives (declEnd before s wanted) Comments.AtNode :=
  Reads.bind (gives_expectFor hs) fun _ _ _ ⟨hs, _⟩ => ⟨hs.takeInline, atNode_nodeComments hb hs⟩

theorem gives_enumValues {s : ParseState} (hs : s.Proper) :
    Gives (enumValues s) fun vs => vs ≠ [] := by
  refine Reads.bind (gives_stringList hs) fun vs s _ ⟨hs, _⟩ => ?_
  dsimp only
  split
  · trivial
  · rename_i h
    exact ⟨hs, fun hnil => h (List.isEmpty_iff.2 hnil)⟩

theorem gives_shapeRecord {s : ParseState} (hs : s.Proper) :
    Gives (shapeRecord s) Record.Written := by
  rw [shapeRecord]
  refine reads_eat (fun _ => ?_) fun _ => gives_record s hs
  exact Reads.bind (gives_expect hs) fun _ s h ⟨hs, _⟩ => Reads.below h (gives_record s hs)

theorem gives_entityDecl {p : Preamble} (hp : p.Writable) {s : ParseState} (hs : s.Proper) :
    Gives (entityDecl p s) Decl.Written := by
  have hnames := gives_afterWord (w := "entity")
    (gives_commaSeparated fun _ => gives_ident) hs
  rw [entityDecl]
  refine Reads.bind hnames fun names s h ⟨hs, hne, hidents⟩ => ?_
  refine reads_eatWord (fun _ => ?_) fun _ => ?_
  · refine Reads.bind (gives_expectWord hs) fun _ s h' ⟨hs, _⟩ => ?_
    have h := left_trans h' h
    refine Reads.bind (Reads.below h (gives_enumValues hs)) fun values s h ⟨hs, hvs⟩ => ?_
    refine Reads.bind (Reads.below h (gives_declEnd hp.before hs)) fun c s _ ⟨hs, hc⟩ => ?_
    exact ⟨hs, ⟨⟨hne, hidents, hvs⟩, hp.annotations, hc⟩, rfl⟩
  · have hparents : Gives (parentClause s) fun ps => ∀ p ∈ ps.getD [], p.Writable :=
      gives_optional hs (gives_afterWord gives_pathRefs hs) (by simp)
    refine Reads.bind (Reads.upTo h hparents) fun parents s h ⟨hs, hps⟩ => ?_
    have hshape : Gives (shapeClause s) fun r => ∀ x ∈ r, Record.Written x :=
      gives_optional hs (gives_some (gives_shapeRecord hs)) (by simp)
    refine Reads.bind (Reads.upTo h hshape) fun shape s h ⟨hs, hr⟩ => ?_
    have htags : Gives (tagsClause s) fun t => ∀ x ∈ t, x.Written :=
      gives_optional hs (gives_some (gives_afterWord gives_type hs)) (by simp)
    refine Reads.bind (Reads.upTo h htags) fun tags s h ⟨hs, ht⟩ => ?_
    refine Reads.bind (Reads.below h (gives_declEnd hp.before hs)) fun c s _ ⟨hs, hc⟩ => ?_
    refine ⟨hs, ⟨⟨hne, hidents, hps, fun r h => (hr r h).1, fun t h => (ht t h).1⟩,
      hp.annotations, hc⟩, ?_⟩
    rw [Decl.plain, EntityDecl.plain, map_eq_self fun r h => (hr r h).2,
      map_eq_self fun t h => (ht t h).2]

theorem gives_readMember {a : AppliesTo} {m : Member} (ha : a.Written) {s : ParseState}
    (hs : s.Proper) : Gives (a.readMember m s) AppliesTo.Written := by
  obtain ⟨hw, hplain⟩ := ha
  have hcontext : a.context.map TypeExpr.plain = a.context := congrArg AppliesTo.context hplain
  cases m with
  | principal =>
    refine Reads.map ((gives_pathRefs s hs).imp fun ps _ ⟨hs, hps⟩ =>
      ⟨hs, { hw with principals := ?_ }, ?_⟩)
    · rintro _ ⟨⟩
      exact hps
    · rw [AppliesTo.plain, hcontext]
  | resource =>
    refine Reads.map ((gives_pathRefs s hs).imp fun ps _ ⟨hs, hps⟩ =>
      ⟨hs, { hw with resources := ?_ }, ?_⟩)
    · rintro _ ⟨⟩
      exact hps
    · rw [AppliesTo.plain, hcontext]
  | context =>
    refine Reads.map ((gives_type s hs).imp fun t _ ⟨hs, ht⟩ => ⟨hs, { hw with context := ?_ }, ?_⟩)
    · rintro _ ⟨⟩
      exact ht.1
    · rw [AppliesTo.plain, Option.map_some, ht.2]

theorem gives_readEnd {a : AppliesTo} (ha : a.Written) {wanted : List Wanted} {s : ParseState}
    (hs : s.Proper) : Gives (a.readEnd s wanted) AppliesTo.Written := by
  obtain ⟨hw, hplain⟩ := ha
  have hcontext : a.context.map TypeExpr.plain = a.context := congrArg AppliesTo.context hplain
  refine Reads.bind (gives_expectFor hs.takePending) fun _ s' _ ⟨hs', _⟩ => ⟨hs', ?_, ?_⟩
  · exact { hw with comments := ⟨⟨by simp, by simp, hs.pendingTexts⟩, rfl, rfl⟩ }
  · rw [AppliesTo.plain, hcontext]

theorem gives_readTail (a : AppliesTo) (ha : a.Written) (s : ParseState) (hs : s.Proper) :
    Gives (a.readTail s) AppliesTo.Written := by
  rw [AppliesTo.readTail]
  split
  · exact gives_readEnd ha hs
  refine Reads.guarded (fun _ => trivial) fun _ => ?_
  refine Reads.bind (gives_expectWord hs) ?_
  rintro _ s h ⟨hs, _⟩
  refine Reads.bind (Reads.below h (gives_expect hs)) ?_
  rintro _ s h ⟨hs, _⟩
  refine Reads.bind (Reads.below h (gives_readMember ha hs)) ?_
  rintro a s h ⟨hs, ha⟩
  refine reads_eat (fun _ => ?_) fun _ => Reads.below h (gives_readEnd ha hs)
  refine Reads.bind (gives_expect hs) ?_
  rintro _ s h' ⟨hs, _⟩
  have h := left_trans h' h
  exact Reads.below h (gives_readTail a ha s hs)
termination_by s.left

theorem gives_appliesTo (s : ParseState) (hs : s.Proper) :
    Gives (AppliesTo.read s) AppliesTo.Written := by
  refine Reads.bind (gives_expect hs) fun _ s h ⟨hs, _⟩ => Reads.below h ?_
  refine gives_readTail {} ⟨⟨by simp, by simp, by simp, ?_⟩, rfl⟩ s hs
  exact ⟨⟨by simp, by simp, by simp⟩, rfl, rfl⟩

theorem gives_emptyBraces (s : ParseState) (hs : s.Proper) : Gives (emptyBraces s) fun _ => True :=
  Reads.bind (gives_expect hs) fun _ _ h ⟨hs, _⟩ => Reads.below h (gives_expectFor hs)

theorem gives_actionDecl {p : Preamble} (hp : p.Writable) {s : ParseState} (hs : s.Proper) :
    Gives (actionDecl p s) Decl.Written := by
  have hitem : ∀ s, s.Proper → Gives (actionName s) fun _ => True := fun _ => gives_name
  have hnames := gives_afterWord (w := "action") (gives_commaSeparated hitem) hs
  rw [actionDecl]
  refine Reads.bind hnames fun names s h ⟨hs, hne, _⟩ => ?_
  have hparents : Gives (actionParents s) fun rs => ∀ r ∈ rs, r.Writable :=
    Reads.map (gives_optional hs (gives_afterWord (gives_oneOrBracketed gives_actionRef) hs)
      (by simp))
  refine Reads.bind (Reads.upTo h hparents) fun parents s h ⟨hs, hps⟩ => ?_
  have happlies : Gives (appliesToClause s) fun a => ∀ x ∈ a, x.Written :=
    gives_optional hs (gives_some (gives_afterWord gives_appliesTo hs)) (by simp)
  refine Reads.bind (Reads.upTo h happlies) fun appliesTo s h ⟨hs, ha⟩ => ?_
  have hnothing : Gives (attributesClause s) fun _ => True :=
    gives_optional hs (gives_afterWord gives_emptyBraces hs) trivial
  refine Reads.bind (Reads.upTo h hnothing) fun _ s h ⟨hs, _⟩ => ?_
  refine Reads.bind (Reads.below h (gives_declEnd hp.before hs)) fun c s _ ⟨hs, hc⟩ => ?_
  refine ⟨hs, ⟨⟨hne, hps, fun a h => (ha a h).1⟩, hp.annotations, hc⟩, ?_⟩
  rw [Decl.plain, ActionDecl.plain, map_eq_self fun a h => (ha a h).2]

theorem gives_commonTypeDecl {p : Preamble} (hp : p.Writable) {s : ParseState} (hs : s.Proper) :
    Gives (commonTypeDecl p s) Decl.Written := by
  refine Reads.bind (gives_expectWord hs) fun _ s h ⟨hs, _⟩ => ?_
  refine Reads.bind (Reads.below h (gives_ident hs)) fun name s h ⟨hs, hident⟩ => ?_
  refine Reads.guarded (fun _ => trivial) fun hr => ?_
  refine Reads.bind (Reads.below h (gives_expect hs)) fun _ s h ⟨hs, _⟩ => ?_
  refine Reads.bind (Reads.below h (gives_type s hs)) fun type s h ⟨hs, ht⟩ => ?_
  refine Reads.bind (Reads.below h (gives_declEnd hp.before hs)) fun c s _ ⟨hs, hc⟩ => ?_
  refine ⟨hs, ⟨⟨hident, hr, ht.1⟩, hp.annotations, hc⟩, ?_⟩
  rw [Decl.plain, CommonTypeDecl.plain, ht.2]

theorem gives_decl {p : Preamble} (hp : p.Writable) {s : ParseState} (hs : s.Proper) :
    Gives (Decl.read p s) Decl.Written := by
  rw [Decl.read]
  split
  · exact gives_entityDecl hp hs
  · exact gives_actionDecl hp hs
  · exact gives_commonTypeDecl hp hs
  · trivial

/-! ## Blocks and files -/

theorem gives_blockTail (s : ParseState) (hs : s.Proper) :
    Gives (blockTail s) fun x => (∀ d ∈ x.1, Decl.Written d) ∧ ∀ text ∈ x.2, IsComment text := by
  rw [blockTail.eq_def]
  split
  · refine Reads.bind (gives_expect hs.takePending) ?_
    rintro _ s' _ ⟨hs', _⟩
    exact ⟨hs', List.forall_mem_nil _, hs.pendingTexts⟩
  · trivial
  · refine Reads.bind (gives_preamble hs) ?_
    rintro p s h ⟨hs, hp⟩
    refine Reads.bind (Reads.behind h (gives_decl hp hs)) ?_
    rintro d s h ⟨hs, hd⟩
    refine Reads.bind (Reads.below h (gives_blockTail s hs)) ?_
    rintro x s _ ⟨hs, hds, hrem⟩
    exact ⟨hs, List.forall_mem_cons.2 ⟨hd, hds⟩, hrem⟩
termination_by s.left

theorem gives_namespaceBlock {p : Preamble} (hp : p.Writable) {s : ParseState} (hs : s.Proper) :
    Gives (NamespaceBlock.read p s) fun b => b.Writable ∧ b.plain = b := by
  have hpath := gives_afterWord (w := "namespace") (fun _ => gives_path) hs
  refine Reads.bind hpath fun path s h ⟨hs, hpath⟩ => ?_
  refine Reads.bind (Reads.below h (gives_expect hs)) fun _ s h ⟨hs, _⟩ => ?_
  refine Reads.bind (Reads.below h (gives_blockTail s hs)) fun x s h ⟨hs, hds, hrem⟩ => ?_
  have hc := atNode_nodeComments hp.before hs
  refine ⟨hs.takeInline, ⟨hpath, fun d hd => (hds d hd).1, hp.annotations, ?_⟩, ?_⟩
  · exact { hc with remaining := hrem }
  · have hplain : x.1.map Decl.plain = x.1 := map_eq_self_of_mem fun d hd => (hds d hd).2
    exact congrArg (NamespaceBlock.mk path · p.annotations _) hplain

/-- A file that can be written and is its own plain form. -/
def Schema.Written (s : Schema) : Prop := s.Writable ∧ s.plain = s

theorem Schema.Written.cons {f : Schema} (h : f.Written) {i : Item} (hi : i.Writable)
    (hplain : i.plain = i) : Schema.Written { f with items := i :: f.items } := by
  have hitems : f.items.map Item.plain = f.items := congrArg Schema.items h.2
  refine ⟨⟨List.forall_mem_cons.2 ⟨hi, h.1.items⟩, h.1.remaining⟩, ?_⟩
  rw [Schema.plain, List.map_cons, hplain, hitems]

theorem ends_fileItems (s : ParseState) (hs : s.Proper) :
    Ends (fun _ => True) (fileItems s) Schema.Written := by
  rw [fileItems.eq_def]
  split
  · exact ⟨⟨List.forall_mem_nil _, hs.pendingTexts⟩, rfl⟩
  refine Reads.bindEnds (gives_preamble hs) ?_
  rintro p s h ⟨hs, hp⟩
  dsimp only
  split
  · refine Reads.bindEnds (Reads.behind h (gives_namespaceBlock hp hs)) ?_
    rintro b s _ ⟨hs, hb⟩
    refine Ends.bind (ends_fileItems s hs) fun f hf => hf.cons hb.1 ?_
    exact congrArg Item.block hb.2
  · trivial
  · refine Reads.bindEnds (Reads.behind h (gives_decl hp hs)) ?_
    rintro d s _ ⟨hs, hd⟩
    refine Ends.bind (ends_fileItems s hs) fun f hf => hf.cons hd.1 ?_
    exact congrArg Item.decl hd.2
termination_by s.left

/-- Whatever a text is read as can be written. -/
theorem Schema.written_of_parse (text : String) :
    Ends (fun _ => True) (Schema.parse text) Schema.Written := by
  have hstream : (TokenStream.ofText text).Readable := TokenStream.readable_ofCursor _
  have hstart : Ends (fun _ => True) (ParseState.start (.ofText text)) ParseState.Proper :=
    Reads.bindEnds (gives_enter hstream (by simp)) fun _ _ _ h => h.1
  exact Ends.bind hstart ends_fileItems

end CedarSchema
