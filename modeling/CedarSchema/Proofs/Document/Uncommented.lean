import CedarSchema.Proofs.Document.Reading
import CedarSchema.Proofs.Schema.Comments

/-
  What is read from a document has no comments, so there is nothing in its canonical text that a
  counter of lines would have to tell apart.
-/

namespace CedarSchema

/-! ## Declarations -/

theorem TypeExpr.allComments_read : Document.GivenByReading fun t => t.allComments = 0 where
  path _ _ := rfl
  entity _ _ := rfl
  set _ h := h
  record attributes h _ := by
    have hall : attributeComments attributes = 0 := by
      clear * - h
      induction attributes with
      | nil => rfl
      | cons a rest ih =>
        obtain ⟨ha, hrest⟩ := List.forall_mem_cons.1 h
        obtain ⟨name, type, required, annotations, comments⟩ := a
        have htype : type.allComments = 0 := ha.type
        obtain rfl : comments = {} := ha.comments
        rw [attributeComments, htype, ih hrest]
        rfl
    show attributeComments attributes + Comments.all {} = 0
    rw [hall]
    rfl

namespace Document

/-- Of an optional part, the comments of the part if there is one. -/
theorem elim_eq_zero {α : Type} {comments : α → Multiset String} {part : Option α}
    (h : ∀ a ∈ part, comments a = 0) : part.elim 0 comments = 0 := by
  cases part with
  | none => rfl
  | some a => exact h a rfl

theorem ReadDecl.allComments {d : Decl} (h : ReadDecl (fun t => t.allComments = 0) d) :
    d.allComments = 0 := by
  have hcomments : Comments.all {} = 0 := rfl
  cases h with
  | commonType htype _ =>
    show Comments.all {} + _ = 0
    rw [hcomments, zero_add]
    exact htype
  | entity _ hshape htags _ =>
    have hshape := @elim_eq_zero _ Record.allComments _ hshape
    have htags := @elim_eq_zero _ TypeExpr.allComments _ htags
    rw [Decl.allComments, Decl.innerComments, hshape, htags, zero_add, add_zero]
    exact hcomments
  | enum _ _ => rfl
  | action _ happliesTo _ =>
    show Comments.all {} + _ = 0
    rw [hcomments, zero_add]
    refine elim_eq_zero fun a ha => ?_
    have ha := happliesTo a ha
    rw [AppliesTo.allComments, elim_eq_zero ha.context, ha.comments, hcomments, zero_add]

end Document

/-! ## Files -/

namespace Schema

variable {s : Schema}

theorem Read.readDecl {P : TypeExpr → Prop} (h : s.Read P) {i : Item} (hi : i ∈ s.items) :
    ∀ d ∈ i.decls, Document.ReadDecl P d := by
  cases h.items i hi with
  | block _ hdecls _ => exact hdecls
  | decl hd => exact List.forall_mem_singleton.2 hd

theorem allComments_of_ofDocumentText {text : String} (h : ofDocumentText text = .ok s) :
    s.allComments = 0 := by
  have hread := read_of_ofDocumentText TypeExpr.allComments_read h
  have hitems : ∀ i ∈ s.items, i.allComments = 0 := by
    intro i hi
    have hdecls : ∀ d ∈ i.decls, d.allComments = 0 := fun d hd =>
      (hread.readDecl hi d hd).allComments
    cases hread.items i hi with
    | block _ _ _ =>
      show Comments.all {} + _ = 0
      exact (zero_add _).trans (List.sum_eq_zero (List.forall_mem_map.2 hdecls))
    | decl _ => exact hdecls _ List.mem_cons_self
  rw [allComments, List.sum_eq_zero (List.forall_mem_map.2 hitems), hread.remaining]
  rfl

/-- The canonical text of what is read has no comment that a counter of lines could misplace. -/
theorem linesFit_of_ofDocumentText {text : String} (h : ofDocumentText text = .ok s)
    (hs : s.Writable) : s.LinesFit := hs.linesFit (allComments_of_ofDocumentText h)

end Schema

end CedarSchema
