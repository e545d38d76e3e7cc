import CedarSchema.Proofs.Document.Reading
import CedarSchema.Proofs.Schema.Writable

/-
  Whatever is read is tidy, from a document as from schema text. A path that was read from a
  document is spelled by its text; an identifier holds no colon, so a path of identifiers is spelled
  by its text as well.
-/

namespace CedarSchema

open Text

/-! ## Paths -/

theorem ne_colon_of_isIdent {s : String} (h : isIdent s = true) : ∀ c ∈ s.toList, c ≠ ':' := by
  have hcolon : isIdentRest ':' = false := by decide
  have hall : ∀ c ∈ s.toList, isIdentRest c = true := by
    rw [isIdent] at h
    cases hs : s.toList with
    | nil => exact List.forall_mem_nil _
    | cons c r =>
      rw [hs, isIdentChars, Bool.and_eq_true, List.all_eq_true] at h
      exact List.forall_mem_cons.2 ⟨isIdentRest_of_isIdentStart h.1, h.2⟩
  rintro c hc rfl
  rw [hall _ hc] at hcolon
  cases hcolon

theorem Path.Writable.spelled {p : Path} (h : p.Writable) : p.Spelled :=
  ofText_text h.nonempty fun s hs => ne_colon_of_isIdent (h.segments s hs)

/-! ## Documents -/

namespace Document

theorem tidyAttributes_of_forall : {attributes : List (Attribute TypeExpr)} →
    (∀ a ∈ attributes, a.type.Tidy) → TidyAttributes attributes
  | [], _ => trivial
  | _ :: _, h =>
    have ⟨ha, hrest⟩ := List.forall_mem_cons.1 h
    ⟨ha, tidyAttributes_of_forall hrest⟩

theorem givenByReading_tidy : GivenByReading TypeExpr.Tidy where
  path _ hp := hp
  entity _ hp := hp
  set _ ht := ht
  record _ has hnodup := ⟨tidyAttributes_of_forall fun a ha => (has a ha).type, hnodup⟩

theorem ReadAppliesTo.tidy {a : AppliesTo} (h : ReadAppliesTo TypeExpr.Tidy a) : a.Tidy :=
  ⟨h.principals, h.resources, h.context⟩

theorem ReadDecl.tidy {d : Decl} (h : ReadDecl TypeExpr.Tidy d) : d.Tidy := by
  cases h with
  | commonType htype _ => exact htype
  | entity hparents hshape htags _ => exact ⟨List.cons_ne_nil _ _, hparents, hshape, htags⟩
  | enum hvalues _ => exact ⟨List.cons_ne_nil _ _, hvalues⟩
  | action hparents happliesTo _ =>
    exact ⟨List.cons_ne_nil _ _, hparents, fun a ha => (happliesTo a ha).tidy⟩

theorem ReadItem.tidy {i : Item} (h : ReadItem TypeExpr.Tidy i) : i.Tidy := by
  cases h with
  | block hname hdecls _ =>
    refine ⟨?_, fun d hd => (hdecls d hd).tidy⟩
    rwa [Path.text_ofText]
  | decl hd => exact hd.tidy

end Document

/-- What is read from the text of a document is tidy. -/
theorem Schema.tidy_of_ofDocumentText {text : String} {s : Schema}
    (h : ofDocumentText text = .ok s) : s.Tidy := fun i hi =>
  ((read_of_ofDocumentText Document.givenByReading_tidy h).items i hi).tidy

/-! ## Schema text -/

theorem Path.Writable.text_ne_empty {p : Path} (h : p.Writable) : p.text ≠ "" := by
  intro htext
  have hp := h.spelled
  rw [Path.Spelled, htext] at hp
  have hempty := h.segments "" (by rw [← hp]; exact List.mem_singleton.2 rfl)
  exact absurd hempty (by decide)

mutual

theorem TypeExpr.Writable.tidy : {t : TypeExpr} → t.Writable → t.Tidy
  | .path _, h => h.spelled
  | .entity _, h => h.spelled
  | .set element, h => TypeExpr.Writable.tidy (t := element) h
  | .record r, h => Record.Writable.tidy (r := r) h
termination_by t => sizeOf t

theorem Record.Writable.tidy : {r : Record TypeExpr} → Record.Writable r → Record.Tidy r
  | ⟨_, _⟩, ⟨hattributes, hnodup, _⟩ => ⟨WritableAttributes.tidy hattributes, hnodup⟩
termination_by r => sizeOf r

theorem WritableAttributes.tidy :
    {attributes : List (Attribute TypeExpr)} → WritableAttributes attributes →
      TidyAttributes attributes
  | [], _ => trivial
  | ⟨_, _, _, _, _⟩ :: _, ⟨⟨ht, _, _⟩, hrest⟩ =>
    ⟨TypeExpr.Writable.tidy ht, WritableAttributes.tidy hrest⟩
termination_by attributes => sizeOf attributes

end

theorem Decl.Writable.tidy {d : Decl} (h : d.Writable) : d.Tidy := by
  have hbody := h.body
  cases d with
  | entity d =>
    have hd : d.Writable := hbody
    exact ⟨hd.names, fun p hp => (hd.parents p hp).spelled,
      fun r hr => Record.Writable.tidy (hd.shape r hr),
      fun t ht => TypeExpr.Writable.tidy (hd.tags t ht)⟩
  | enum d =>
    have hd : d.Writable := hbody
    exact ⟨hd.names, hd.values⟩
  | action d =>
    have hd : d.Writable := hbody
    refine ⟨hd.names, fun r hr p hp => (hd.parents r hr p hp).spelled, fun a ha => ?_⟩
    have ha := hd.appliesTo a ha
    exact ⟨fun ps hps p hp => (ha.principals ps hps p hp).spelled,
      fun rs hrs r hr => (ha.resources rs hrs r hr).spelled,
      fun t ht => TypeExpr.Writable.tidy (ha.context t ht)⟩
  | commonType d =>
    have hd : d.Writable := hbody
    exact TypeExpr.Writable.tidy hd.type

/-- A schema that text can express is tidy. -/
theorem Schema.Writable.tidy {s : Schema} (h : s.Writable) : s.Tidy := by
  intro i hi
  have hi := h.items i hi
  cases i with
  | block b =>
    have hb : b.Writable := hi
    exact ⟨hb.path.text_ne_empty, fun d hd => (hb.decls d hd).tidy⟩
  | decl d => exact Decl.Writable.tidy hi

end CedarSchema
