import CedarSchema.Proofs.Document.Format
import CedarSchema.Proofs.Document.Restored
import CedarSchema.Proofs.RoundTrip

/-
  Every document that is written has the published format. What a namespace is written as can be
  read, and what can be read has the format but for unknown fields in parents of actions; none are
  written there. The document of a schema may be nested to any depth, and it may have an annotated
  root namespace, which no reader accepts.
-/

namespace CedarSchema

namespace Document

variable {decls : List Decl}

/-- A parent of an action is written with the known fields only. -/
theorem isPlainRef_document (r : ActionRef) : isPlainRef r.document = true := by
  rw [ActionRef.document, Json.ofMembers, isPlainRef, isObjectWith, hasOnlyFields, List.all_eq_true]
  intro e he
  rcases List.mem_cons.1 (Dict.mem_of_mem_ofList he) with rfl | he
  · rfl
  · rw [mem_optionalMember he]
    rfl

theorem hasPlainParents_document (d : ActionDecl) : hasPlainParents d.document = true := by
  have hparents : (Dict.ofList (("memberOf", Json.array (d.parents.map ActionRef.document)) ::
      (optionalMember "appliesTo" AppliesTo.document d.appliesTo ++
        annotationsMember d.annotations))).find? "memberOf" =
      some (.array (d.parents.map ActionRef.document)) := by
    simp [annotationsMember_eq]
  rw [ActionDecl.document, Json.ofMembers, hasPlainParents, isObjectWith, mayHaveField,
    findEntry_ofList, hparents, Option.all_some, isArrayOf, List.all_eq_true]
  exact List.forall_mem_map.2 fun r _ => isPlainRef_document r

theorem hasPlainParents_of_mem_actionMembers {d : Decl} :
    ∀ e ∈ d.actionMembers, hasPlainParents e.2 = true := by
  cases d with
  | action d => exact List.forall_mem_map.2 fun _ _ => hasPlainParents_document d
  | _ => exact List.forall_mem_nil _

theorem hasPlainActions_namespaceDocument (annotations : List Annotation) (decls : List Decl) :
    hasPlainActions (namespaceDocument annotations decls) = true := by
  have hactions : (Dict.ofList (annotationsMember annotations ++
      [("entityTypes", .ofMembers (decls.flatMap Decl.entityTypeMembers)),
        ("actions", .ofMembers (decls.flatMap Decl.actionMembers)),
        ("commonTypes", .ofMembers (decls.flatMap Decl.commonTypeMembers))])).find? "actions" =
      some (Json.ofMembers (decls.flatMap Decl.actionMembers)) := by
    simp [annotationsMember_eq]
  rw [namespaceDocument, Json.ofMembers, hasPlainActions, isObjectWith, mayHaveField,
    findEntry_ofList, hactions, Option.all_some, Json.ofMembers, isObjectOf, List.all_eq_true]
  intro e he
  obtain ⟨d, -, he⟩ := List.mem_flatMap.1 (Dict.mem_of_mem_ofList he)
  exact hasPlainParents_of_mem_actionMembers e he

theorem isNamespace_namespaceDocument (annotations : List Annotation)
    (h : ∀ d ∈ decls, d.HasValues) :
    isNamespace (namespaceDocument annotations decls) = true := by
  -- Under a name that is not that of the root, a namespace is read whatever its annotations are.
  have hname : "_" ≠ "" := by decide
  have hread : namespaceOf "_" (namespaceDocument annotations (Schema.restoredDecls decls)) =
      .ok (normalItems "_" annotations (Schema.restoredDecls decls)) :=
    namespaceOf_document (fun h => (hname h).elim) (Schema.tidy_restoredDecls h)
  have hok := isOk_namespaceOf "_" (readable_namespaceDocument annotations decls)
  rw [Schema.namespaceDocument_restoredDecls] at hread
  rw [hread, bne_iff_ne.2 hname, Bool.true_or, Bool.and_true] at hok
  rw [isNamespace_eq, hasPlainActions_namespaceDocument, Bool.and_true]
  exact hok.symm

end Document

namespace Decl

theorem Tidy.hasValues {d : Decl} (h : d.Tidy) : d.HasValues := by
  cases d with
  | enum d => exact EnumDecl.Tidy.values h
  | _ => trivial

end Decl

namespace Schema

open Document

variable {s : Schema}

theorem isValid_document_of_hasValues (h : ∀ d ∈ s.declarations, d.decl.HasValues) :
    isValid s.document = true := by
  rw [document, isValid, isObjectOf, List.all_eq_true]
  refine List.forall_mem_map.2 fun e he => ?_
  exact isNamespace_namespaceDocument _ fun d hd => h _ (mem_declarations_of_namespaces he hd)

theorem Tidy.hasValues (h : s.Tidy) : ∀ d ∈ s.declarations, d.decl.HasValues :=
  fun _ hd => (h.of_mem_declarations hd).hasValues

/-- The document of a schema has the published format if its enumerated entity types have values,
as they have in every schema that was read from text or from a document. -/
theorem isValid_document :
    (∀ s : Schema, (∀ d ∈ s.declarations, d.decl.HasValues) → isValid s.document = true) ∧
      (∀ text s, parse text = .ok s → ∀ d ∈ s.declarations, d.decl.HasValues) ∧
        ∀ text s, ofDocumentText text = .ok s → ∀ d ∈ s.declarations, d.decl.HasValues := by
  refine ⟨fun s => isValid_document_of_hasValues, fun text s h => ?_, fun text s h => ?_⟩
  · exact ((written_of_parse text).of_ok h).1.tidy.hasValues
  · exact (tidy_of_ofDocumentText h).hasValues

/-- An annotated root namespace; no text and no document is read as this. -/
def annotatedRoot : Schema where
  items := [.block {
    path := ⟨[""]⟩
    annotations := [⟨"doc", none⟩]
    decls := [.enum { names := ["Color", "Color"], values := ["red"] }] }]

def colors : Schema where
  items := [.decl (.enum { names := ["Color"], values := ["red"] })]

theorem colors_writable : colors.Writable := by
  have hbody : EnumDecl.Writable { names := ["Color"], values := ["red"] } :=
    ⟨by simp, by decide, by simp⟩
  have hdecl : Decl.Writable (.enum { names := ["Color"], values := ["red"] }) :=
    { body := hbody
      annotations := writableAnnotations_nil
      comments := ⟨comments_writable_empty, rfl⟩ }
  exact ⟨List.forall_mem_singleton.2 hdecl, List.forall_mem_nil _⟩

theorem isValid_document_colors :
    (∀ d ∈ annotatedRoot.declarations, d.decl.HasValues) ∧
      isValid annotatedRoot.document = true ∧
      parse colors.format = .ok colors ∧ (∀ d ∈ colors.declarations, d.decl.HasValues) ∧
      ofDocumentText colors.document.text = .ok colors.restored ∧
      ∀ d ∈ colors.restored.declarations, d.decl.HasValues := by
  have hvalues : ∀ d ∈ annotatedRoot.declarations, d.decl.HasValues := by
    simp [annotatedRoot, declarations, Item.decls, Decl.HasValues]
  obtain ⟨c, hparse, rfl⟩ :=
    (colors_writable.parse_format (colors_writable.linesFit rfl)).exists_ok
  obtain ⟨hvalid, hparsed, hread⟩ := isValid_document
  have hcolors := hparsed _ _ hparse
  have hdepth : colors.document.depth ≤ 127 := by cbv
  have htext := ofDocumentText_document hcolors (by decide) hdepth
  exact ⟨hvalues, hvalid _ hvalues, hparse, hcolors, htext, hread _ _ htext⟩

end Schema

end CedarSchema
