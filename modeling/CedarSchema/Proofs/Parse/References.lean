import CedarSchema.Proofs.Parse.Ahead
import CedarSchema.Proofs.Schema.Writable

/-
  Reading back what stands between the types of a layout: paths, lists, references to actions and
  annotations. What is read is what was written, and the state behind it is in front of the rest.
-/

namespace CedarSchema

open Piece ParseState

/-- The reading succeeds with the value `x`, in front of the layout `rest`. -/
def Yields {n : Nat} {α : Type} (r : Except ParseError (Reading n α)) (x : α)
    (rest : List Piece) : Prop :=
  Reads (fun _ => False) r fun y s => y = x ∧ Behind rest s

/-- Whether a layout begins with nothing that could continue a path or a type. -/
def Piece.Stops (rest : List Piece) : Prop :=
  first rest ≠ .punct .doubleColon ∧ first rest ≠ .punct .leftAngle

section

variable {rest : List Piece} {s : ParseState}

/-! ## Paths -/

theorem separated_cons (sep i : List Piece) (is : List (List Piece)) :
    separated sep (i :: is) = i ++ is.flatMap fun j => sep ++ j := by
  induction is generalizing i with
  | nil => simp [separated]
  | cons j js ih => simp [separated, ih]

theorem yields_pathTail {segments : List String} (hr : first rest ≠ .punct .doubleColon)
    (hs : Behind (segments.flatMap (fun x => [punct .doubleColon, ident x]) ++ rest) s) :
    Yields (pathTail s) segments rest := by
  induction segments generalizing s with
  | nil =>
    rw [pathTail]
    refine reads_eat (fun h => ?_) fun _ => Reads.pure ⟨rfl, hs⟩
    rw [hs.ahead.lookahead_eq] at h
    exact absurd h hr
  | cons x xs ih =>
    rw [pathTail]
    refine reads_eat (fun _ => ?_) fun h => absurd hs.ahead.lookahead_eq h
    refine Reads.bind hs.ahead.reads_expect fun _ s _ hs => ?_
    refine Reads.bind (Reads.below _ hs.ahead.reads_ident) fun _ s _ ⟨hx, hs⟩ => ?_
    refine Reads.bind (Reads.upTo _ (ih hs)) fun _ s _ ⟨hxs, hs⟩ => ?_
    exact ⟨by rw [hx, hxs], hs⟩

theorem Path.layout_cons (x : String) (xs : List String) :
    Path.layout ⟨x :: xs⟩ = ident x :: xs.flatMap fun x => [punct .doubleColon, ident x] := by
  rw [Path.layout, List.map_cons, separated_cons, List.flatMap_map]
  rfl

theorem Path.yields {p : Path} (hp : p.Writable) (hr : first rest ≠ .punct .doubleColon)
    (hs : Ahead (p.layout ++ rest) s) : Yields (Path.read s) p rest := by
  obtain ⟨segments⟩ := p
  obtain ⟨x, xs, rfl⟩ := List.exists_cons_of_ne_nil hp.nonempty
  rw [layout_cons] at hs
  refine Reads.bind hs.reads_ident fun _ s _ ⟨hx, hs⟩ => ?_
  refine Reads.bind (Reads.upTo _ (yields_pathTail hr hs)) fun _ s _ ⟨hxs, hs⟩ => ?_
  exact ⟨by rw [hx, hxs], hs⟩

/-! ## Lists -/

/-- An item of a list is read back from its layout wherever the list may go on. -/
structure ReadsItem {α : Type} (item : (s : ParseState) → Except ParseError (Reading s.left α))
    (layout : α → List Piece) (x : α) : Prop where
  begins : ∀ rest, first (layout x ++ rest) ≠ .punct .rightBracket
  yields : ∀ rest s, Stops rest → Ahead (layout x ++ rest) s → Yields (item s) x rest

variable {α : Type} {item : (s : ParseState) → Except ParseError (Reading s.left α)}
  {layout : α → List Piece}

theorem yields_bracketTail {xs : List α} (hxs : ∀ x ∈ xs, ReadsItem item layout x)
    (hs : Ahead (commas (xs.map layout) ++ punct .rightBracket :: rest) s) :
    Yields (bracketTail item s) xs rest := by
  induction xs generalizing s with
  | nil =>
    rw [bracketTail]
    refine reads_eat (fun _ => ?_) fun h => absurd hs.lookahead_eq h
    exact Reads.bind hs.reads_expect fun _ s _ hs => ⟨rfl, hs⟩
  | cons x xs ih =>
    obtain ⟨hx, hxs⟩ := List.forall_mem_cons.1 hxs
    have hne (rest) : s.lookahead = first (layout x ++ rest) → s.lookahead ≠ .punct .rightBracket :=
      fun h => h ▸ hx.begins rest
    rw [bracketTail]
    cases xs with
    | nil =>
      refine reads_eat (fun h => absurd h (hne _ hs.lookahead_eq)) fun _ => ?_
      refine Reads.bind (hx.yields _ s (by simp [Stops]) hs) ?_
      rintro _ s _ ⟨hx, hs⟩
      refine reads_eat (fun h => ?_) fun _ => ?_
      · rw [hs.ahead.lookahead_eq] at h
        cases h
      · refine Reads.bind (Reads.below _ hs.ahead.reads_expectFor) fun _ s _ hs => ?_
        exact ⟨by rw [hx], hs⟩
    | cons y ys =>
      have hs : Ahead (layout x ++ (punct .comma :: .space ::
          (commas ((y :: ys).map layout) ++ punct .rightBracket :: rest))) s := by
        simpa [commas, separated] using hs
      refine reads_eat (fun h => absurd h (hne _ hs.lookahead_eq)) fun _ => ?_
      refine Reads.bind (hx.yields _ s (by simp [Stops]) hs) ?_
      rintro _ s _ ⟨hx, hs⟩
      refine reads_eat (fun _ => ?_) fun h => absurd hs.ahead.lookahead_eq h
      refine Reads.bind hs.ahead.reads_expect fun _ s _ hs => ?_
      refine Reads.bind (Reads.below _ (ih hxs hs.ahead.space)) ?_
      rintro _ s _ ⟨hxs, hs⟩
      exact ⟨by rw [hx, hxs], hs⟩

theorem yields_oneOrBracketed {xs : List α} (hxs : ∀ x ∈ xs, ReadsItem item layout x)
    (hs : Ahead (bracketed (xs.map layout) ++ rest) s) :
    Yields (oneOrBracketed item s) xs rest := by
  rw [bracketed, List.cons_append, List.append_assoc] at hs
  rw [oneOrBracketed]
  refine reads_eat (fun _ => ?_) fun h => absurd hs.lookahead_eq h
  refine Reads.bind hs.reads_expect fun _ s _ hs => ?_
  exact Reads.below _ (yields_bracketTail hxs hs.ahead)

theorem yields_commaSeparated {xs : List α} (hne : xs ≠ [])
    (hxs : ∀ x ∈ xs, ReadsItem item layout x) (hr : Stops rest) (hc : first rest ≠ .punct .comma)
    (hs : Ahead (commas (xs.map layout) ++ rest) s) : Yields (commaSeparated item s) xs rest := by
  induction xs generalizing s with
  | nil => exact absurd rfl hne
  | cons x xs ih =>
    obtain ⟨hx, hxs⟩ := List.forall_mem_cons.1 hxs
    rw [commaSeparated]
    cases xs with
    | nil =>
      refine Reads.bind (hx.yields _ s hr hs) ?_
      rintro _ s _ ⟨hx, hs⟩
      refine reads_eat (fun h => ?_) fun _ => ?_
      · rw [hs.ahead.lookahead_eq] at h
        exact absurd h hc
      · exact ⟨by rw [hx], hs⟩
    | cons y ys =>
      have hs : Ahead (layout x ++ (punct .comma :: .space ::
          (commas ((y :: ys).map layout) ++ rest))) s := by
        simpa [commas, separated] using hs
      refine Reads.bind (hx.yields _ s (by simp [Stops]) hs) ?_
      rintro _ s _ ⟨hx, hs⟩
      refine reads_eat (fun _ => ?_) fun h => absurd hs.ahead.lookahead_eq h
      refine Reads.bind hs.ahead.reads_expect fun _ s _ hs => ?_
      have ih := ih (List.cons_ne_nil y ys) hxs hs.ahead.space
      refine Reads.bind (Reads.below _ ih) ?_
      rintro _ s _ ⟨hxs, hs⟩
      exact ⟨by rw [hx, hxs], hs⟩

theorem readsItem_ident (x : String) : ReadsItem ParseState.ident (fun x => [ident x]) x where
  begins _ := by simp
  yields _ _ _ hs := hs.reads_ident

theorem readsItem_stringLiteral (x : String) : ReadsItem stringLiteral (fun x => [str x]) x where
  begins _ := by simp
  yields _ _ _ hs := hs.reads_stringLiteral

theorem readsItem_name (wanted : List Wanted) (x : String) :
    ReadsItem (fun s => s.name wanted) (fun x => [Piece.name x]) x where
  begins _ := by
    rw [Piece.name]
    split <;> simp
  yields _ _ _ hs := hs.reads_name

theorem Path.Writable.readsItem {p : Path} (hp : p.Writable) :
    ReadsItem Path.read Path.layout p where
  begins rest := by
    obtain ⟨segments⟩ := p
    obtain ⟨x, xs, rfl⟩ := List.exists_cons_of_ne_nil hp.nonempty
    simp [Path.layout_cons]
  yields _ _ hr hs := Path.yields hp hr.1 hs

theorem yields_pathRefs {paths : List Path} (hp : ∀ p ∈ paths, p.Writable)
    (hs : Ahead (pathList paths ++ rest) s) : Yields (pathRefs s) paths rest :=
  yields_oneOrBracketed (fun p h => (hp p h).readsItem) hs

theorem yields_stringList {values : List String}
    (hs : Ahead (bracketed (values.map fun v => [str v]) ++ rest) s) :
    Yields (stringList s) values rest := by
  rw [bracketed, List.cons_append, List.append_assoc] at hs
  refine Reads.bind hs.reads_expect fun _ s _ hs => ?_
  exact Reads.below _ (yields_bracketTail (fun v _ => readsItem_stringLiteral v) hs.ahead)

/-! ## References to actions -/

theorem yields_actionRefTail {start : Position} {id : String} {read segments : List String}
    (hs : Behind (segments.flatMap (fun x => [punct .doubleColon, ident x]) ++
      (punct .doubleColon :: str id :: rest)) s) :
    Yields (actionRefTail start read s) ⟨some ⟨read ++ segments⟩, id⟩ rest := by
  induction segments generalizing read s with
  | nil =>
    rw [actionRefTail.eq_def]
    refine reads_eat (fun _ => ?_) fun h => absurd hs.ahead.lookahead_eq h
    refine Reads.bind hs.ahead.reads_expect fun _ s _ hs => ?_
    have hl : s.lookahead = .str id := hs.ahead.lookahead_eq
    simp only [hl]
    refine Reads.bind (Reads.below _ hs.ahead.reads_stringLiteral) fun _ s _ ⟨hid, hs⟩ => ?_
    exact ⟨by rw [hid, List.append_nil], hs⟩
  | cons x xs ih =>
    rw [actionRefTail.eq_def]
    refine reads_eat (fun _ => ?_) fun h => absurd hs.ahead.lookahead_eq h
    refine Reads.bind hs.ahead.reads_expect fun _ s _ hs => ?_
    have hl : s.lookahead = .ident x := hs.ahead.lookahead_eq
    simp only [hl]
    refine Reads.bind (Reads.below _ hs.ahead.reads_ident) fun _ s _ ⟨hx, hs⟩ => ?_
    refine Reads.bind (Reads.upTo _ (ih hs)) fun _ s _ ⟨href, hs⟩ => ?_
    exact ⟨by rw [href, hx, List.append_assoc]; rfl, hs⟩

theorem ActionRef.yields {r : ActionRef} (h : r.Writable)
    (hr : first rest ≠ .punct .doubleColon) (hs : Ahead (r.layout ++ rest) s) :
    Yields (ActionRef.read s) r rest := by
  obtain ⟨type, id⟩ := r
  cases type with
  | none =>
    have hs : Ahead (Piece.name id :: rest) s := hs
    rw [Piece.name] at hs
    rw [ActionRef.read]
    split at hs
    · have hl : s.lookahead = .ident id := hs.lookahead_eq
      simp only [hl]
      refine Reads.bind hs.reads_ident ?_
      rintro _ s _ ⟨hid, hs⟩
      rw [hid, actionRefTail.eq_def]
      refine Reads.upTo _ (reads_eat (fun h => ?_) fun _ => Reads.pure ⟨rfl, hs⟩)
      rw [hs.ahead.lookahead_eq] at h
      exact absurd h hr
    · have hl : s.lookahead = .str id := hs.lookahead_eq
      simp only [hl]
      refine Reads.map (hs.reads_stringLiteral.imp ?_)
      rintro _ _ ⟨hid, hs⟩
      exact ⟨by rw [hid], hs⟩
  | some p =>
    obtain ⟨segments⟩ := p
    obtain ⟨x, xs, rfl⟩ := List.exists_cons_of_ne_nil (h _ rfl).nonempty
    have hs : Ahead (Piece.ident x :: (xs.flatMap (fun x => [punct .doubleColon, Piece.ident x]) ++
        (punct .doubleColon :: str id :: rest))) s := by
      simpa [ActionRef.layout, Path.layout_cons] using hs
    have hl : s.lookahead = .ident x := hs.lookahead_eq
    rw [ActionRef.read]
    simp only [hl]
    refine Reads.bind hs.reads_ident ?_
    rintro _ s _ ⟨hx, hs⟩
    rw [hx]
    exact Reads.upTo _ (yields_actionRefTail hs)

theorem ActionRef.Writable.readsItem {r : ActionRef} (h : r.Writable) :
    ReadsItem ActionRef.read ActionRef.layout r where
  begins rest := by
    obtain ⟨type, id⟩ := r
    cases type with
    | none =>
      show first (Piece.name id :: rest) ≠ _
      rw [Piece.name]
      split <;> simp
    | some p =>
      have := (h p rfl).readsItem.begins (punct .doubleColon :: str id :: rest)
      simpa [ActionRef.layout] using this
  yields _ _ hr hs := ActionRef.yields h hr.1 hs

/-! ## Annotations -/

theorem leading_annotations {depth : Nat} {annotations : List Annotation} (h : leading rest = []) :
    leading ((annotations.flatMap fun a => indent depth :: (a.layout ++ [newline])) ++ rest) =
      [] := by
  cases annotations with
  | nil => exact h
  | cons a as => rfl

theorem yields_annotationValue {value : String}
    (hs : Ahead (punct .leftParen :: str value :: punct .rightParen :: rest) s) :
    Yields (annotationValue s) value rest := by
  refine Reads.bind hs.reads_expect fun _ s _ hs => ?_
  refine Reads.bind (Reads.below _ hs.ahead.reads_stringLiteral) fun _ s _ ⟨hv, hs⟩ => ?_
  exact Reads.bind (Reads.below _ hs.ahead.reads_expect) fun _ s _ hs => ⟨hv, hs⟩

/-- The layout of the value of an annotation, behind its key. -/
def valueLayout : Option String → List Piece
  | some v => [punct .leftParen, str v, punct .rightParen]
  | none => []

theorem Annotation.layout_eq (a : Annotation) :
    a.layout = punct .atSign :: Piece.ident a.key :: valueLayout a.value := rfl

/-- The value of an annotation, if there is one, and the end of its line. -/
theorem reads_annotationEnd {value : Option String} (hr : first rest ≠ .punct .leftParen)
    (hs : Behind (valueLayout value ++ newline :: rest) s) :
    Reads (fun _ => False) (s.optional [.punct .leftParen] annotationValue) fun v s' =>
      v = value ∧ Ahead rest s' := by
  cases value with
  | none =>
    refine reads_optional (fun h => ?_) fun _ => ⟨rfl, hs.ahead.newline⟩
    rw [hs.ahead.lookahead_eq, List.mem_singleton] at h
    exact absurd h hr
  | some v =>
    refine reads_optional (fun _ => ?_) fun h => ?_
    · exact (yields_annotationValue hs.ahead).imp fun _ _ ⟨hv, hs⟩ =>
        ⟨by rw [hv], hs.ahead.newline⟩
    · rw [hs.ahead.lookahead_eq] at h
      exact absurd (List.mem_singleton.2 rfl) h

theorem reads_annotationList {depth : Nat} {keys : List String} {annotations : List Annotation}
    (hnodup : (annotations.map Annotation.key).Nodup)
    (hkeys : ∀ a ∈ annotations, a.key ∉ keys) (hr : ∀ p, first rest ≠ .punct p)
    (hs : Ahead ((annotations.flatMap fun a => indent depth :: (a.layout ++ [newline])) ++ rest)
      s) :
    Reads (fun _ => False) (annotationList keys s) fun as s' =>
      as = annotations ∧ Ahead rest s' := by
  induction annotations generalizing keys s with
  | nil =>
    rw [annotationList]
    refine reads_eat (fun h => ?_) fun _ => Reads.pure ⟨rfl, hs⟩
    rw [hs.lookahead_eq] at h
    exact absurd h (hr _)
  | cons a as ih =>
    obtain ⟨key, value⟩ := a
    obtain ⟨hkey, hkeys⟩ := List.forall_mem_cons.1 hkeys
    obtain ⟨hnew, hnodup⟩ := List.nodup_cons.1 hnodup
    let others := (as.flatMap fun a => indent depth :: (a.layout ++ [newline])) ++ rest
    have hothers : first others ≠ .punct .leftParen := by
      cases as with
      | nil => exact hr _
      | cons b bs => simp [others, Annotation.layout]
    have hs : Ahead (punct .atSign :: Piece.ident key ::
        (valueLayout value ++ newline :: others)) s := by
      rw [List.flatMap_cons, List.append_assoc, List.cons_append, List.append_assoc,
        Annotation.layout_eq] at hs
      exact hs.indent
    rw [annotationList]
    refine reads_eat (fun _ => ?_) fun h => absurd hs.lookahead_eq h
    refine Reads.bind hs.reads_expect fun _ s _ hs => ?_
    refine Reads.bind (Reads.below _ hs.ahead.reads_ident) fun _ s _ ⟨hk, hs⟩ => ?_
    rw [hk]
    refine Reads.guarded (fun h => absurd (List.contains_iff_mem.1 h) hkey) fun _ => ?_
    refine Reads.bind (Reads.upTo _ (reads_annotationEnd hothers hs)) fun _ s _ ⟨hv, hs⟩ => ?_
    have hkeys : ∀ a ∈ as, a.key ∉ key :: keys := by
      intro a ha hmem
      rcases List.mem_cons.1 hmem with heq | hmem
      · exact hnew (List.mem_map.2 ⟨a, ha, heq⟩)
      · exact hkeys a ha hmem
    refine Reads.bind (Reads.upTo _ (ih hnodup hkeys hs)) fun _ s _ ⟨has, hs⟩ => ?_
    exact ⟨by rw [hv, has], hs⟩

/-- A preamble is read back, and no comment waits behind it. -/
theorem reads_preamble {depth : Nat} {c : Comments} {annotations : List Annotation}
    (ha : WritableAnnotations annotations) (hl : leading rest = [])
    (hr : ∀ p, first rest ≠ .punct p)
    (hs : Ahead (preamble depth c annotations ++ rest) s) :
    Reads (fun _ => False) (Preamble.read s) fun p s' =>
      p = ⟨c.before, annotations⟩ ∧ Ahead rest s' := by
  rw [preamble, List.append_assoc] at hs
  obtain ⟨hbefore, hs⟩ := hs.takePending_comments (leading_annotations hl)
  rw [Preamble.read, hbefore]
  refine Reads.bind (reads_annotationList ha.nodup (by simp) hr hs) fun _ s _ h => ?_
  obtain ⟨has, hs⟩ := h
  refine ⟨?_, ?_⟩
  · rw [has, hs.pendingTexts_eq, hl, List.append_nil]
  · show Ahead rest s.takePending
    rw [hs.takePending_self hl]
    exact hs

end

end CedarSchema
