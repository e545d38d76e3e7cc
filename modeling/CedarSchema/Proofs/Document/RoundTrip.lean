import CedarSchema.Proofs.Document.Meaning
import CedarSchema.Proofs.Document.Uncommented
import CedarSchema.Proofs.Document.Written
import CedarSchema.Proofs.Parse.Decl
import Mathlib

/-
  From a schema to its document and back. The document of a schema that was read, from text or from
  a document, is read as the normal form of the schema if it is not nested too deeply, and the
  normal form means what the schema means. From schema text the way leads on through the canonical
  text of the normal form.
-/

namespace CedarSchema

open Json

/-! ## Documents are readable -/

theorem readable_ofStrings (texts : List String) : (Json.ofStrings texts).Readable :=
  readableItems_iff.2 (List.forall_mem_map.2 fun _ _ => trivial)

theorem readable_pathTexts (paths : List Path) : (pathTexts paths).Readable :=
  readable_ofStrings _

/-- Values under the keys of a dictionary make an object. -/
theorem readable_object_map {α : Type} (d : Dict String α) {f : String × α → Json}
    (h : ∀ e, (f e).Readable) : (Json.object (d.entries.map fun e => (e.1, f e))).Readable := by
  refine ⟨?_, readableMembers_iff.2 (List.forall_mem_map.2 fun e _ => h e)⟩
  exact List.pairwise_map.2 d.ascending

theorem readable_ofTexts (d : Dict String String) : (Json.ofTexts d).Readable :=
  readable_object_map d fun _ => trivial

theorem readable_annotationsMember (annotations : List Annotation) :
    ∀ e ∈ annotationsMember annotations, e.2.Readable := by
  unfold annotationsMember
  split
  · exact nofun
  · exact List.forall_mem_singleton.2 (readable_ofTexts _)

theorem readable_optionalMember {α : Type} {key : String} {write : α → Json}
    (h : ∀ a, (write a).Readable) (a : Option α) :
    ∀ e ∈ optionalMember key write a, e.2.Readable := by
  cases a with
  | none => exact nofun
  | some a => exact List.forall_mem_singleton.2 (h a)

mutual

theorem TypeExpr.readable_members : (t : TypeExpr) → ∀ e ∈ t.members, e.2.Readable
  | .path _ => by simp [TypeExpr.members, Readable]
  | .entity _ => by simp [TypeExpr.members, Readable]
  | .set element => by
    have helement := readable_ofMembers (TypeExpr.readable_members element)
    simp [TypeExpr.members, Readable, helement]
  | .record r => Record.readable_members r
termination_by t => sizeOf t

theorem Record.readable_members : (r : Record TypeExpr) → ∀ e ∈ Record.members r, e.2.Readable
  | ⟨attributes, _⟩ => by
    have hattributes := readable_ofMembers (readable_attributeMembers attributes)
    simp [Record.members, Readable, hattributes]
termination_by r => sizeOf r

theorem readable_attributeMembers : (attributes : List (Attribute TypeExpr)) →
    ∀ e ∈ attributeMembers attributes, e.2.Readable
  | [] => nofun
  | ⟨_, type, _, annotations, _⟩ :: rest => by
    refine List.forall_mem_cons.2 ⟨readable_ofMembers ?_, readable_attributeMembers rest⟩
    refine List.forall_mem_append.2 ⟨TypeExpr.readable_members type, ?_⟩
    exact List.forall_mem_cons.2 ⟨trivial, readable_annotationsMember annotations⟩
termination_by attributes => sizeOf attributes

end

theorem TypeExpr.readable_document (t : TypeExpr) : t.document.Readable :=
  readable_ofMembers t.readable_members

theorem EntityDecl.readable_document (d : EntityDecl) : d.document.Readable := by
  refine readable_ofMembers (List.forall_mem_cons.2 ⟨readable_pathTexts _, ?_⟩)
  refine List.forall_mem_append.2 ⟨List.forall_mem_append.2 ⟨?_, ?_⟩, readable_annotationsMember _⟩
  · exact readable_optionalMember (fun r => readable_ofMembers (Record.readable_members r)) _
  · exact readable_optionalMember TypeExpr.readable_document _

theorem EnumDecl.readable_document (d : EnumDecl) : d.document.Readable :=
  readable_ofMembers (List.forall_mem_cons.2 ⟨readable_ofStrings _, readable_annotationsMember _⟩)

theorem ActionRef.readable_document (r : ActionRef) : r.document.Readable := by
  have htype (p : Path) : (Json.string p.text).Readable := trivial
  refine readable_ofMembers (List.forall_mem_cons.2 ⟨trivial, ?_⟩)
  exact readable_optionalMember htype _

theorem AppliesTo.readable_document (a : AppliesTo) : a.document.Readable := by
  refine readable_ofMembers (List.forall_mem_append.2 ⟨List.forall_mem_append.2 ⟨?_, ?_⟩, ?_⟩)
  · exact readable_optionalMember readable_pathTexts _
  · exact readable_optionalMember readable_pathTexts _
  · exact readable_optionalMember TypeExpr.readable_document _

theorem ActionDecl.readable_document (d : ActionDecl) : d.document.Readable := by
  have hparents : (Json.array (d.parents.map ActionRef.document)).Readable :=
    readableItems_iff.2 (List.forall_mem_map.2 fun r _ => r.readable_document)
  refine readable_ofMembers (List.forall_mem_cons.2 ⟨hparents, ?_⟩)
  refine List.forall_mem_append.2 ⟨?_, readable_annotationsMember _⟩
  exact readable_optionalMember AppliesTo.readable_document _

theorem CommonTypeDecl.readable_document (d : CommonTypeDecl) : d.document.Readable :=
  readable_ofMembers (List.forall_mem_append.2
    ⟨d.type.readable_members, readable_annotationsMember _⟩)

theorem Decl.readable_members (d : Decl) :
    (∀ e ∈ d.entityTypeMembers, e.2.Readable) ∧ (∀ e ∈ d.actionMembers, e.2.Readable) ∧
      ∀ e ∈ d.commonTypeMembers, e.2.Readable := by
  cases d with
  | entity d => exact ⟨List.forall_mem_map.2 fun _ _ => d.readable_document, nofun, nofun⟩
  | enum d => exact ⟨List.forall_mem_map.2 fun _ _ => d.readable_document, nofun, nofun⟩
  | action d => exact ⟨nofun, List.forall_mem_map.2 fun _ _ => d.readable_document, nofun⟩
  | commonType d => exact ⟨nofun, nofun, List.forall_mem_singleton.2 d.readable_document⟩

theorem readable_namespaceDocument (annotations : List Annotation) (decls : List Decl) :
    (namespaceDocument annotations decls).Readable := by
  have hmembers {f : Decl → List (String × Json)} (h : ∀ d, ∀ e ∈ f d, e.2.Readable) :
      (Json.ofMembers (decls.flatMap f)).Readable := by
    refine readable_ofMembers fun e he => ?_
    obtain ⟨d, -, he⟩ := List.mem_flatMap.1 he
    exact h d e he
  refine readable_ofMembers (List.forall_mem_append.2 ⟨readable_annotationsMember _, ?_⟩)
  refine List.forall_mem_cons.2 ⟨hmembers fun d => d.readable_members.1, ?_⟩
  refine List.forall_mem_cons.2 ⟨hmembers fun d => d.readable_members.2.1, ?_⟩
  exact List.forall_mem_singleton.2 (hmembers fun d => d.readable_members.2.2)

namespace Schema

variable {s : Schema}

/-- The text of a document can be read if the document is not nested too deeply. -/
theorem readable_document (s : Schema) : s.document.Readable :=
  readable_object_map s.namespaces fun e => readable_namespaceDocument (s.annotationsOf e.1) e.2

/-! ## Round trips -/

theorem Tidy.ofDocumentText_document (h : s.Tidy) (hdepth : s.document.depth ≤ maxDepth) :
    ofDocumentText s.document.text = .ok s.normal := by
  rw [ofDocumentText, read?_text s.readable_document hdepth]
  dsimp only
  rw [h.ofDocument_document]
  rfl

/-- A schema that was read from text or from a document means the same after a trip to its document
and back: if it resolves, it resolves to the same afterwards, and if it fails, and not because of a
name that is declared twice, it fails afterwards. From schema text the trip may go on through the
canonical text. -/
theorem resolve_ofDocumentText_document
    (hs : (∃ text, parse text = .ok s) ∨ ∃ text, ofDocumentText text = .ok s)
    (hdepth : s.document.depth ≤ 127) :
    ∃ s', ofDocumentText s.document.text = .ok s' ∧
      (∀ r, s.resolve = .ok r → s'.resolve = .ok r) ∧
      (∀ e, s.resolve = .error e → (∀ kind name, e ≠ .duplicate kind name) →
        ∃ e', s'.resolve = .error e') ∧
      ((∃ text, parse text = .ok s) →
        ∃ t, parse s'.format = .ok t ∧ ∀ r, s.resolve = .ok r → t.resolve = .ok r) := by
  have htidy : s.Tidy := by
    rcases hs with ⟨text, h⟩ | ⟨text, h⟩
    · exact ((written_of_parse text).of_ok h).1.tidy
    · exact tidy_of_ofDocumentText h
  refine ⟨s.normal, htidy.ofDocumentText_document hdepth, fun r => htidy.resolve_normal,
    fun e he hno => ?_, fun ⟨text, h⟩ => ?_⟩
  · cases hr : s.normal.resolve with
    | error e' => exact ⟨e', rfl⟩
    | ok r =>
      rcases htidy.resolve_of_normal hr with ⟨r', hr'⟩ | ⟨kind, name, hdup⟩
      · cases he.symm.trans hr'
      · cases he.symm.trans hdup
        exact (hno kind name rfl).elim
  · have hwritten : s.normal.Written := Written.normal ((written_of_parse text).of_ok h)
    have hread := htidy.ofDocumentText_document hdepth
    have hlines := linesFit_of_ofDocumentText hread hwritten.1
    obtain ⟨t, ht, heq⟩ := (hwritten.1.parse_format hlines).exists_ok
    rw [heq, hwritten.2] at ht
    exact ⟨_, ht, fun r => htidy.resolve_normal⟩

/-- What `follows` is read from. -/
def followsText : String :=
  "namespace Social \x7b type People = Set<User>; " ++
  "entity User, Admin in [Social::User] \x7b follows: People \x7d; action read; \x7d " ++
  "namespace Social \x7b action follow in read appliesTo \x7b principal: [User], " ++
  "resource: [Admin], context: \x7b by: Social::User \x7d \x7d; \x7d"

/-- Two blocks of one namespace become one, and an entity type declared under two names two. -/
theorem resolve_ofDocumentText_document_follows : ∃ s s' t r, parse followsText = .ok s ∧
    s.document.depth ≤ 127 ∧ s.resolve = .ok r ∧ ofDocumentText s.document.text = .ok s' ∧
      s'.resolve = .ok r ∧ parse s'.format = .ok t ∧ t.resolve = .ok r := by
  have hparse : parse followsText = .ok follows := by cbv
  have hdepth : follows.document.depth ≤ 127 := by cbv
  obtain ⟨r, hr⟩ := exists_resolve_follows
  obtain ⟨s', hs', hmeans, -, htext⟩ := resolve_ofDocumentText_document (.inl ⟨_, hparse⟩) hdepth
  obtain ⟨t, ht, hmeans'⟩ := htext ⟨_, hparse⟩
  exact ⟨follows, s', t, r, hparse, hdepth, hr, hs', hmeans r hr, ht, hmeans' r hr⟩

end Schema

end CedarSchema
