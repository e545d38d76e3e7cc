import CedarSchema.Proofs.Document.Respelled
import CedarSchema.Proofs.Document.RoundTrip

/-
  From any schema to its document, back, and to a document again. The schema may be built by hand,
  with declarations of the same name, paths that no text spells and comments anywhere; what is read
  from its document (`Schema.restored`) has the same document and neither comments nor declarations
  of several names. Only a root namespace in which nothing is declared is lost on the way, because
  the root namespace has no block of its own in what is read.
-/

namespace CedarSchema

/-- The object without the member under a key. -/
def Json.without (key : String) : Json → Json
  | .object members => .object (members.filter fun e => e.1 ≠ key)
  | j => j

/-- The annotations that an item adds to its namespace. -/
def Item.blockAnnotations : Item → List Annotation
  | .block b => b.annotations
  | .decl _ => []

/-! ## What is read has single names -/

namespace Document

theorem ReadDecl.exists_names {P : TypeExpr → Prop} {d : Decl} (h : ReadDecl P d) :
    ∃ name, d.names = [name] := by
  cases h with
  | _ => exact ⟨_, rfl⟩

end Document

namespace Schema

variable {s : Schema}

theorem exists_names_of_ofDocumentText {text : String} (h : ofDocumentText text = .ok s) :
    ∀ d ∈ s.declarations, ∃ name, d.decl.names = [name] := by
  intro d hd
  obtain ⟨i, hi, -, hd⟩ := mem_declarations_iff.1 hd
  exact ((read_of_ofDocumentText TypeExpr.allComments_read h).readDecl hi _ hd).exists_names

/-! ## The items of a namespace -/

/-- The items of a schema that add to a namespace. -/
def itemsIn (s : Schema) (ns : String) : List Item := s.items.filter fun i => i.namespaceName = ns

theorem itemsIn_eq_nil {ns : String} : s.itemsIn ns = [] ↔ ns ∉ s.namespaces.keys := by
  rw [itemsIn, List.filter_eq_nil_iff, mem_keys_namespaces]
  simp

/-- The declarations of a namespace are those of its items, one after the other. -/
theorem find?_namespaces (s : Schema) (ns : String) : s.namespaces.find? ns =
    if s.itemsIn ns = [] then none else some ((s.itemsIn ns).flatMap Item.decls) := by
  have hfold (items : List Item) (d : Dict String (List Decl)) :
      ((items.foldl (fun d i => d.append i.namespaceName i.decls) d).find? ns).getD [] =
        (d.find? ns).getD [] ++
          (items.filter fun i => i.namespaceName = ns).flatMap Item.decls := by
    induction items generalizing d with
    | nil => exact (List.append_nil _).symm
    | cons i items ih =>
      rw [List.foldl_cons, ih, Dict.append]
      by_cases hi : i.namespaceName = ns
      · rw [List.filter_cons_of_pos (by simpa using hi), List.flatMap_cons, ← hi,
          Dict.find?_insert_self, Option.getD_some, List.append_assoc]
      · rw [List.filter_cons_of_neg (by simpa using hi),
          Dict.find?_insert_of_ne _ (Ne.symm hi)]
  have hget := hfold s.items .empty
  split
  · rename_i hnil
    rw [itemsIn_eq_nil, ← Dict.contains_iff, Dict.contains, Bool.not_eq_true,
      Option.isSome_eq_false_iff, Option.isNone_iff_eq_none] at hnil
    exact hnil
  · rename_i hne
    rw [itemsIn_eq_nil, not_not, ← Dict.contains_iff, Dict.contains,
      Option.isSome_iff_exists] at hne
    obtain ⟨decls, hdecls⟩ := hne
    rw [← namespaces, hdecls] at hget
    rw [hdecls]
    exact congrArg some hget

theorem annotationsOf_eq (s : Schema) (ns : String) :
    s.annotationsOf ns = (s.itemsIn ns).flatMap Item.blockAnnotations := by
  unfold annotationsOf itemsIn
  induction s.items with
  | nil => rfl
  | cons i items ih =>
    rw [List.flatMap_cons, ih]
    by_cases hi : i.namespaceName = ns
    · rw [List.filter_cons_of_pos (by simpa using hi), List.flatMap_cons]
      cases i with
      | block b => exact congrArg (· ++ _) (if_pos hi)
      | decl d => rfl
    · rw [List.filter_cons_of_neg (by simpa using hi)]
      cases i with
      | block b => exact congrArg (· ++ _) (if_neg hi)
      | decl d => rfl

/-- The document of each namespace, under its name. -/
def documents (s : Schema) : Dict String Json where
  entries := s.namespaces.entries.map fun e => (e.1, namespaceDocument (s.annotationsOf e.1) e.2)
  ascending := by
    rw [Ascending, List.pairwise_map]
    exact s.namespaces.ascending

theorem document_eq (s : Schema) : s.document = .object s.documents.entries := rfl

theorem find?_documents (s : Schema) (ns : String) : s.documents.find? ns =
    (s.namespaces.find? ns).map (namespaceDocument (s.annotationsOf ns)) := by
  unfold Dict.find? documents
  dsimp only
  induction s.namespaces.entries with
  | nil => rfl
  | cons e entries ih =>
    rw [List.map_cons, findEntry, findEntry]
    split
    · rename_i heq
      rw [Std.LawfulEqCmp.eq_of_compare heq]
      rfl
    · exact ih

/-! ## What is read from the document of any schema -/

/-- The declarations that are read from the document of a namespace. -/
def restoredDecls (decls : List Decl) : List Decl := normalDecls (decls.map Decl.respelled)

/-- What is read from the document of a schema. -/
def restored (s : Schema) : Schema where
  items := s.namespaces.entries.flatMap fun (ns, decls) =>
    normalItems ns (s.annotationsOf ns) (restoredDecls decls)

theorem namespaceDocument_restoredDecls (annotations : List Annotation) (decls : List Decl) :
    namespaceDocument annotations (restoredDecls decls) = namespaceDocument annotations decls :=
  (namespaceDocument_normalDecls _ _).trans (namespaceDocument_respelled _ _)

theorem tidy_restoredDecls {decls : List Decl} (h : ∀ d ∈ decls, d.HasValues) :
    ∀ d ∈ restoredDecls decls, d.Tidy := by
  intro d' hd'
  obtain ⟨d', hd', hmem⟩ := exists_of_mem_normalDecls hd'
  obtain ⟨d, hd, rfl⟩ := List.mem_map.1 hd'
  exact Decl.tidy_of_mem_normals_respelled (h d hd) hmem

/-- The document of any schema is read, and as what is tidy of the schema. -/
theorem ofDocument_document (hvalues : ∀ d ∈ s.declarations, d.decl.HasValues)
    (hroot : s.annotationsOf "" = []) : ofDocument s.document = .ok s.restored := by
  have hread : List.Forall₂ (Document.MemberReads Document.namespaceOf) s.documents.entries
      (s.namespaces.entries.map fun e =>
        (e.1, normalItems e.1 (s.annotationsOf e.1) (restoredDecls e.2))) := by
    unfold documents
    rw [List.forall₂_map_left_iff, List.forall₂_map_right_iff, List.forall₂_same]
    intro e he
    refine ⟨rfl, ?_⟩
    rw [← namespaceDocument_restoredDecls]
    refine Document.namespaceOf_document ?_ (tidy_restoredDecls fun d hd => ?_)
    · intro hname
      rw [hname, hroot]
    · exact hvalues _ (mem_declarations_of_namespaces he hd)
  have hitems : Document.eachMember Document.namespaceOf s.document = _ :=
    Document.mapM_members hread
  rw [ofDocument, hitems, ok_bind, List.map_map, ← List.flatMap_def]
  rfl

/-! ## The document of what is read -/

theorem namespaceName_of_mem_normalItems {ns : String} {annotations : List Annotation}
    {decls : List Decl} : ∀ i ∈ normalItems ns annotations decls, i.namespaceName = ns := by
  unfold normalItems
  split
  · rename_i hns
    exact List.forall_mem_map.2 fun _ _ => hns.symm
  · exact List.forall_mem_singleton.2 (Path.text_ofText ns)

theorem flatMap_decls_normalItems (ns : String) (annotations : List Annotation)
    (decls : List Decl) :
    (normalItems ns annotations decls).flatMap Item.decls = normalDecls decls := by
  unfold normalItems
  split
  · rw [List.flatMap_map]
    exact List.flatMap_singleton' _
  · exact List.append_nil _

/-- The value under a key is all that the entries of that key come to. -/
theorem flatMap_entries_eq {α β : Type} (d : Dict String α) (f : String × α → List β) (k : String) :
    d.entries.flatMap (fun e => if e.1 = k then f e else []) =
      (d.find? k).elim [] fun a => f (k, a) := by
  obtain ⟨entries, hascending⟩ := d
  show _ = (findEntry k entries).elim [] fun a => f (k, a)
  induction entries with
  | nil => rfl
  | cons e entries ih =>
    obtain ⟨he, hentries⟩ := List.pairwise_cons.1 hascending
    rw [List.flatMap_cons, ih hentries, findEntry]
    by_cases hk : e.1 = k
    · subst hk
      rw [if_pos rfl, if_pos Std.ReflOrd.compare_self, findEntry_eq_none he]
      exact List.append_nil _
    · rw [if_neg hk, if_neg fun h => hk (Std.LawfulEqCmp.eq_of_compare h).symm, List.nil_append]

theorem itemsIn_restored (s : Schema) (ns : String) : s.restored.itemsIn ns =
    (s.namespaces.find? ns).elim [] fun decls =>
      normalItems ns (s.annotationsOf ns) (restoredDecls decls) := by
  rw [← flatMap_entries_eq s.namespaces
    (fun e => normalItems e.1 (s.annotationsOf e.1) (restoredDecls e.2)), itemsIn, restored,
    List.filter_flatMap]
  refine congrArg s.namespaces.entries.flatMap (funext fun e => ?_)
  have hname := @namespaceName_of_mem_normalItems e.1 (s.annotationsOf e.1) (restoredDecls e.2)
  by_cases he : e.1 = ns
  · rw [if_pos he, List.filter_eq_self]
    exact fun i hi => decide_eq_true ((hname i hi).trans he)
  · rw [if_neg he, List.filter_eq_nil_iff]
    exact fun i hi h => he ((hname i hi).symm.trans (of_decide_eq_true h))

theorem flatMap_blockAnnotations_normalItems {ns : String} {annotations : List Annotation}
    (hroot : ns = "" → annotations = []) (decls : List Decl) :
    (normalItems ns annotations decls).flatMap Item.blockAnnotations =
      normalAnnotations annotations := by
  unfold normalItems
  split
  · rename_i hns
    rw [hroot hns, List.flatMap_map]
    exact List.flatMap_eq_nil_iff.2 fun _ _ => rfl
  · exact List.append_nil _

theorem normalDecls_eq_nil {decls : List Decl} :
    normalDecls decls = [] ↔ ∀ d ∈ decls, d.names = [] := by
  have hentries (d : Decl) : (d.commonTypeEntries = [] ∧ d.entityTypeEntries = []) ∧
      d.actionEntries = [] ↔ d.names = [] := by
    cases d <;> simp [Decl.commonTypeEntries, Decl.entityTypeEntries, Decl.actionEntries,
      Decl.names]
  simp only [normalDecls, Dict.values, List.append_eq_nil_iff, List.map_eq_nil_iff,
    Dict.entries_ofList_eq_nil, List.flatMap_eq_nil_iff, ← forall_and, ← hentries]

theorem exists_names_of_mem_normals {d d' : Decl} (h : d' ∈ d.normals) :
    ∃ name, d'.names = [name] := by
  cases d with
  | commonType d =>
    obtain rfl := List.mem_singleton.1 h
    exact ⟨_, rfl⟩
  | _ =>
    obtain ⟨n, -, rfl⟩ := List.mem_map.1 h
    exact ⟨n, rfl⟩

/-- What is read declares something unless nothing was declared. -/
theorem normalDecls_restoredDecls_eq_nil {decls : List Decl} :
    normalDecls (restoredDecls decls) = [] ↔ ∀ d ∈ decls, d.names = [] := by
  have hnames (d : Decl) : d.respelled.names = d.names := by cases d <;> rfl
  rw [normalDecls_eq_nil]
  constructor
  · intro h
    have hnil : restoredDecls decls = [] := by
      rw [List.eq_nil_iff_forall_not_mem]
      intro d' hd'
      obtain ⟨d, -, hmem⟩ := exists_of_mem_normalDecls hd'
      obtain ⟨n, hn⟩ := exists_names_of_mem_normals hmem
      rw [h d' hd'] at hn
      cases hn
    intro d hd
    rw [← hnames]
    exact normalDecls_eq_nil.1 hnil _ (List.mem_map_of_mem hd)
  · intro h
    have hnil : restoredDecls decls = [] :=
      normalDecls_eq_nil.2 (List.forall_mem_map.2 fun d hd => (hnames d).trans (h d hd))
    rw [hnil]
    exact List.forall_mem_nil _

/-- There are items of the root namespace, but nothing is declared in it. -/
def HasEmptyRoot (s : Schema) : Prop :=
  s.itemsIn "" ≠ [] ∧ ∀ i ∈ s.itemsIn "", ∀ d ∈ i.decls, d.names = []

theorem find?_namespaces_of_ne {ns : String} (h : s.itemsIn ns ≠ []) :
    s.namespaces.find? ns = some ((s.itemsIn ns).flatMap Item.decls) := by
  rw [find?_namespaces, if_neg h]

theorem itemsIn_restored_eq_nil {ns : String} :
    s.restored.itemsIn ns = [] ↔ s.itemsIn ns = [] ∨ ns = "" ∧ s.HasEmptyRoot := by
  rw [itemsIn_restored]
  by_cases hnil : s.itemsIn ns = []
  · rw [find?_namespaces, if_pos hnil]
    exact ⟨fun _ => .inl hnil, fun _ => rfl⟩
  · rw [find?_namespaces_of_ne hnil, Option.elim_some, or_iff_right hnil, normalItems]
    by_cases hns : ns = ""
    · subst hns
      rw [if_pos rfl, List.map_eq_nil_iff, normalDecls_restoredDecls_eq_nil,
        and_iff_right rfl, HasEmptyRoot, and_iff_right hnil]
      simp only [List.mem_flatMap, forall_exists_index, and_imp]
      exact ⟨fun h i hi d hd => h d i hi hd, fun h d i hi hd => h i hi d hd⟩
    · rw [if_neg hns]
      exact iff_of_false (List.cons_ne_nil _ _) fun h => hns h.1

/-- Each namespace of what is read has the document it had, unless it is lost. -/
theorem find?_documents_restored (hroot : s.annotationsOf "" = []) {ns : String}
    (h : ¬(ns = "" ∧ s.HasEmptyRoot)) :
    s.restored.documents.find? ns = s.documents.find? ns := by
  rw [find?_documents, find?_documents]
  by_cases hnil : s.itemsIn ns = []
  · rw [find?_namespaces, find?_namespaces, if_pos (itemsIn_restored_eq_nil.2 (.inl hnil)),
      if_pos hnil]
    rfl
  · have hne : s.restored.itemsIn ns ≠ [] := fun hempty =>
      (itemsIn_restored_eq_nil.1 hempty).elim hnil h
    have hitems : s.restored.itemsIn ns = normalItems ns (s.annotationsOf ns)
        (restoredDecls ((s.itemsIn ns).flatMap Item.decls)) := by
      rw [itemsIn_restored, find?_namespaces_of_ne hnil, Option.elim_some]
    have hannotations : ns = "" → s.annotationsOf ns = [] := fun hns => hns ▸ hroot
    rw [find?_namespaces_of_ne hne, find?_namespaces_of_ne hnil, Option.map_some, Option.map_some,
      s.restored.annotationsOf_eq, hitems, flatMap_decls_normalItems,
      flatMap_blockAnnotations_normalItems hannotations, namespaceDocument_normalAnnotations,
      namespaceDocument_normalDecls, namespaceDocument_restoredDecls]

theorem document_restored (hroot : s.annotationsOf "" = []) (h : ¬s.HasEmptyRoot) :
    s.restored.document = s.document := by
  have hdocuments : s.restored.documents = s.documents :=
    Dict.ext_find? fun ns => find?_documents_restored hroot fun ⟨_, hempty⟩ => h hempty
  rw [document_eq, document_eq, hdocuments]

theorem document_restored_of_hasEmptyRoot (hroot : s.annotationsOf "" = [])
    (h : s.HasEmptyRoot) : s.restored.document = s.document.without "" := by
  have hentries : s.restored.documents.entries =
      s.documents.entries.filter fun e => e.1 ≠ "" := by
    refine s.restored.documents.ascending.ext (s.documents.ascending.filter _) fun ns => ?_
    rw [findEntry_filter_ne]
    split
    · rename_i hns
      subst hns
      have hitems : s.restored.itemsIn "" = [] := itemsIn_restored_eq_nil.2 (.inr ⟨rfl, h⟩)
      show s.restored.documents.find? "" = none
      rw [find?_documents, find?_namespaces, if_pos hitems]
      rfl
    · rename_i hns
      exact find?_documents_restored hroot fun ⟨hempty, _⟩ => hns hempty
  rw [document_eq, document_eq, hentries]
  rfl

theorem ofDocumentText_document (hvalues : ∀ d ∈ s.declarations, d.decl.HasValues)
    (hroot : s.annotationsOf "" = []) (hdepth : s.document.depth ≤ Json.maxDepth) :
    ofDocumentText s.document.text = .ok s.restored := by
  rw [ofDocumentText, Json.read?_text s.readable_document hdepth]
  dsimp only
  rw [ofDocument_document hvalues hroot]
  rfl

/-- The document of any schema is read if its enumerated types have values, its root namespace is
not annotated and it is not nested too deeply. What is read has the same document, but for an empty
root namespace, and neither comments nor declarations of several names. -/
theorem exists_ofDocumentText_document (hvalues : ∀ d ∈ s.declarations, d.decl.HasValues)
    (hroot : s.annotationsOf "" = []) (hdepth : s.document.depth ≤ 127) :
    ∃ s', ofDocumentText s.document.text = .ok s' ∧
      (¬s.HasEmptyRoot → s'.document = s.document) ∧
      (s.HasEmptyRoot → s'.document = s.document.without "") ∧
      s'.allComments = 0 ∧ ∀ d ∈ s'.declarations, ∃ name, d.decl.names = [name] := by
  have hread := ofDocumentText_document hvalues hroot hdepth
  exact ⟨s.restored, hread, document_restored hroot, document_restored_of_hasEmptyRoot hroot,
    allComments_of_ofDocumentText hread, exists_names_of_ofDocumentText hread⟩

/-- A namespace spelled in two ways, an entity type of the same name twice and an attribute too. -/
def handBuilt : Schema where
  items := [
    .block {
      path := ⟨["Social::App"]⟩
      annotations := [⟨"doc", none⟩, ⟨"doc", some ""⟩]
      decls := [.entity {
        names := ["User", "User"]
        parents := [⟨["App::Team", ""]⟩]
        shape := some {
          attributes := [
            { name := "type", type := .path ⟨["Long"]⟩, comments := { before := ["// kind"] } },
            { name := "type", type := .set (.entity ⟨["User"]⟩), required := false }] }
        comments := { before := ["// users"] } }] },
    .block {
      path := ⟨["Social", "App"]⟩
      decls := [.enum { names := ["Color"], values := ["red"] },
        .commonType { name := "Name", type := .path ⟨["a b"]⟩ }] },
    .decl (.action { names := ["read", ""], parents := [⟨some ⟨[]⟩, "all"⟩] })]
  remaining := ["// end"]

theorem exists_ofDocumentText_document_handBuilt :
    (∀ d ∈ handBuilt.declarations, d.decl.HasValues) ∧ handBuilt.annotationsOf "" = [] ∧
      handBuilt.document.depth ≤ 127 ∧ ¬handBuilt.HasEmptyRoot ∧
      ∃ s', ofDocumentText handBuilt.document.text = .ok s' ∧
        s'.document = handBuilt.document ∧ s'.allComments = 0 ∧
        ∀ d ∈ s'.declarations, ∃ name, d.decl.names = [name] := by
  have hvalues : ∀ d ∈ handBuilt.declarations, d.decl.HasValues := by
    simp [handBuilt, declarations, Item.decls, Decl.HasValues]
  have hroot : handBuilt.annotationsOf "" = [] := by decide
  have hdepth : handBuilt.document.depth ≤ 127 := by cbv
  have hdeclared : ¬handBuilt.HasEmptyRoot := by
    rintro ⟨-, h⟩
    have hmem := h _ (List.mem_of_getElem? (i := 0) rfl) _ List.mem_cons_self
    cases hmem
  obtain ⟨s', hread, hdocument, -, hcomments, hnames⟩ :=
    exists_ofDocumentText_document hvalues hroot hdepth
  exact ⟨hvalues, hroot, hdepth, hdeclared, s', hread, hdocument hdeclared, hcomments, hnames⟩

/-- The root namespace as a block in which nothing is declared. -/
def emptyRoot : Schema where
  items := [.block { path := ⟨[""]⟩, decls := [] }]

/-- Nothing is read of an empty root namespace, so its member is not written again. -/
theorem not_exists_ofDocumentText_document_emptyRoot :
    (∀ d ∈ emptyRoot.declarations, d.decl.HasValues) ∧ emptyRoot.annotationsOf "" = [] ∧
      emptyRoot.document.depth ≤ 127 ∧
      ¬∃ s', ofDocumentText emptyRoot.document.text = .ok s' ∧
        s'.document = emptyRoot.document := by
  have hvalues : ∀ d ∈ emptyRoot.declarations, d.decl.HasValues := List.forall_mem_nil _
  have hroot : emptyRoot.annotationsOf "" = [] := by decide
  have hdepth : emptyRoot.document.depth ≤ 127 := by cbv
  refine ⟨hvalues, hroot, hdepth, ?_⟩
  rintro ⟨s', hread, hdocument⟩
  have hrestored : emptyRoot.restored = { items := [] } := rfl
  rw [ofDocumentText_document hvalues hroot hdepth, hrestored] at hread
  cases hread
  have hmembers : ([] : List (String × Json)) = emptyRoot.documents.entries :=
    Json.object.inj hdocument
  cases hmembers

end Schema

end CedarSchema
