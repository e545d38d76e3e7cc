import CedarSchema.Proofs.Document.Written

/-
  What a document cannot tell apart. A path is written as its text, so a schema with every path
  split anew at the double colons of its text (`respelled`) has the same document; and since a
  document has each name once and in ascending order, it is also the document of the normal form.
  Both together make any type and any declaration tidy, whatever paths and attributes it was built
  with.
-/

namespace CedarSchema

/-! ## Respelling -/

def Path.respelled (p : Path) : Path := Path.ofText p.text

theorem Path.text_respelled (p : Path) : p.respelled.text = p.text := Path.text_ofText p.text

theorem Path.spelled_respelled (p : Path) : p.respelled.Spelled := Path.spelled_ofText p.text

mutual

/-- The type with every path in it spelled by its text. -/
def TypeExpr.respelled : TypeExpr → TypeExpr
  | .path p => .path p.respelled
  | .entity p => .entity p.respelled
  | .set element => .set element.respelled
  | .record r => .record (Record.respelled r)
termination_by structural t => t

def Record.respelled : Record TypeExpr → Record TypeExpr
  | ⟨attributes, comments⟩ => ⟨respelledAttributes attributes, comments⟩
termination_by structural r => r

def respelledAttributes : List (Attribute TypeExpr) → List (Attribute TypeExpr)
  | [] => []
  | ⟨name, type, required, annotations, comments⟩ :: rest =>
    ⟨name, type.respelled, required, annotations, comments⟩ :: respelledAttributes rest
termination_by structural attributes => attributes

end

def EntityDecl.respelled (d : EntityDecl) : EntityDecl where
  __ := d
  parents := d.parents.map Path.respelled
  shape := d.shape.map Record.respelled
  tags := d.tags.map TypeExpr.respelled

def ActionRef.respelled (r : ActionRef) : ActionRef := ⟨r.type.map Path.respelled, r.id⟩

def AppliesTo.respelled (a : AppliesTo) : AppliesTo where
  __ := a
  principals := a.principals.map fun ps => ps.map Path.respelled
  resources := a.resources.map fun rs => rs.map Path.respelled
  context := a.context.map TypeExpr.respelled

def ActionDecl.respelled (d : ActionDecl) : ActionDecl where
  __ := d
  parents := d.parents.map ActionRef.respelled
  appliesTo := d.appliesTo.map AppliesTo.respelled

def CommonTypeDecl.respelled (d : CommonTypeDecl) : CommonTypeDecl :=
  { d with type := d.type.respelled }

/-- The declaration with every path in it spelled by its text. -/
def Decl.respelled : Decl → Decl
  | .entity d => .entity d.respelled
  | .enum d => .enum d
  | .action d => .action d.respelled
  | .commonType d => .commonType d.respelled

/-! ## The document of what is respelled -/

theorem pathTexts_respelled (paths : List Path) :
    pathTexts (paths.map Path.respelled) = pathTexts paths := by
  rw [pathTexts, List.map_map]
  exact congrArg Json.ofStrings (List.map_congr_left fun p _ => p.text_respelled)

/-- An optional part is written alike before and after a change that no document tells. -/
theorem optionalMember_map {α : Type} {write : α → Json} {f : α → α}
    (h : ∀ a, write (f a) = write a) (key : String) (a : Option α) :
    optionalMember key write (a.map f) = optionalMember key write a := by
  cases a with
  | none => rfl
  | some a => exact congrArg (fun j => [(key, j)]) (h a)

mutual

theorem TypeExpr.members_respelled : (t : TypeExpr) → t.respelled.members = t.members
  | .path p => by
    rw [TypeExpr.respelled, TypeExpr.members, TypeExpr.members, p.text_respelled]
  | .entity p => by
    rw [TypeExpr.respelled, TypeExpr.members, TypeExpr.members, p.text_respelled]
  | .set element => by
    rw [TypeExpr.respelled, TypeExpr.members, TypeExpr.members, element.members_respelled]
  | .record r => Record.members_respelled r
termination_by t => sizeOf t

theorem Record.members_respelled : (r : Record TypeExpr) →
    Record.members (Record.respelled r) = Record.members r
  | ⟨attributes, comments⟩ => by
    rw [Record.respelled, Record.members, Record.members, attributeMembers_respelled attributes]
termination_by r => sizeOf r

theorem attributeMembers_respelled : (attributes : List (Attribute TypeExpr)) →
    attributeMembers (respelledAttributes attributes) = attributeMembers attributes
  | [] => rfl
  | ⟨name, type, required, annotations, comments⟩ :: rest => by
    rw [respelledAttributes, attributeMembers, attributeMembers, type.members_respelled,
      attributeMembers_respelled rest]
termination_by attributes => sizeOf attributes

end

theorem TypeExpr.document_respelled (t : TypeExpr) : t.respelled.document = t.document :=
  congrArg Json.ofMembers t.members_respelled

theorem EntityDecl.document_respelled (d : EntityDecl) : d.respelled.document = d.document := by
  have hshape (r : Record TypeExpr) :
      Json.ofMembers (Record.members (Record.respelled r)) = .ofMembers (Record.members r) :=
    congrArg Json.ofMembers (Record.members_respelled r)
  unfold document respelled
  dsimp only
  rw [pathTexts_respelled, optionalMember_map hshape,
    optionalMember_map TypeExpr.document_respelled]

theorem ActionRef.document_respelled (r : ActionRef) : r.respelled.document = r.document := by
  have htype (p : Path) : Json.string p.respelled.text = .string p.text :=
    congrArg Json.string p.text_respelled
  unfold document respelled
  rw [optionalMember_map htype]

theorem AppliesTo.document_respelled (a : AppliesTo) : a.respelled.document = a.document := by
  unfold document respelled
  rw [optionalMember_map pathTexts_respelled, optionalMember_map pathTexts_respelled,
    optionalMember_map TypeExpr.document_respelled]

theorem ActionDecl.document_respelled (d : ActionDecl) : d.respelled.document = d.document := by
  have hparents : d.respelled.parents.map ActionRef.document = d.parents.map ActionRef.document :=
    (List.map_map ..).trans (List.map_congr_left fun r _ => r.document_respelled)
  unfold document
  rw [hparents, respelled, optionalMember_map AppliesTo.document_respelled]

theorem CommonTypeDecl.document_respelled (d : CommonTypeDecl) :
    d.respelled.document = d.document := by
  unfold document respelled
  rw [d.type.members_respelled]

namespace Decl

theorem entityTypeMembers_respelled (d : Decl) :
    d.respelled.entityTypeMembers = d.entityTypeMembers := by
  cases d with
  | entity d => exact congrArg (fun j => d.names.map fun n => (n, j)) d.document_respelled
  | _ => rfl

theorem actionMembers_respelled (d : Decl) : d.respelled.actionMembers = d.actionMembers := by
  cases d with
  | action d => exact congrArg (fun j => d.names.map fun n => (n, j)) d.document_respelled
  | _ => rfl

theorem commonTypeMembers_respelled (d : Decl) :
    d.respelled.commonTypeMembers = d.commonTypeMembers := by
  cases d with
  | commonType d => exact congrArg (fun j => [(d.name, j)]) d.document_respelled
  | _ => rfl

end Decl

theorem namespaceDocument_respelled (annotations : List Annotation) (decls : List Decl) :
    namespaceDocument annotations (decls.map Decl.respelled) =
      namespaceDocument annotations decls := by
  unfold namespaceDocument
  simp only [List.flatMap_map, Decl.entityTypeMembers_respelled, Decl.actionMembers_respelled,
    Decl.commonTypeMembers_respelled]

/-! ## The document of a normal form -/

theorem annotationsMember_normal (annotations : List Annotation) :
    annotationsMember (normalAnnotations annotations) = annotationsMember annotations := by
  have hempty : (normalAnnotations annotations).isEmpty = annotations.isEmpty := by
    rw [Bool.eq_iff_iff, List.isEmpty_iff, List.isEmpty_iff, normalAnnotations, List.map_eq_nil_iff,
      annotationDict, Dict.entries_ofList_eq_nil, List.map_eq_nil_iff]
  rw [annotationsMember, annotationsMember, hempty, annotationDict_normal]

/-- The member is what is written for the value of the entry, under the same key. -/
def WrittenAs {α : Type} (membersOf : α → List (String × Json)) (m : String × Json)
    (e : String × α) : Prop := m.1 = e.1 ∧ membersOf e.2 = [m]

/-- The values that a dictionary keeps are written as the members that an object keeps. -/
theorem flatMap_values_ofList {α : Type} {membersOf : α → List (String × Json)}
    {members : List (String × Json)} {entries : List (String × α)}
    (h : List.Forall₂ (WrittenAs membersOf) members entries) :
    (Dict.ofList entries).values.flatMap membersOf = (Dict.ofList members).entries := by
  have hall {es : List (String × α)} {ms : List (String × Json)}
      (h : List.Forall₂ (WrittenAs membersOf) ms es) :
      (es.map Prod.snd).flatMap membersOf = ms := by
    induction h with
    | nil => rfl
    | cons hme _ ih =>
      rw [List.map_cons, List.flatMap_cons, hme.2, ih]
      rfl
  exact hall (Dict.forall₂_ofList (fun _ _ hme => hme.1) h)

theorem ofMembers_entries (d : Dict String Json) :
    Json.ofMembers d.entries = .object d.entries := by
  rw [Json.ofMembers, Dict.ofList_entries]

theorem attributeMembers_eq_flatMap (attributes : List (Attribute TypeExpr)) :
    attributeMembers attributes = attributes.flatMap fun a => attributeMembers [a] := by
  induction attributes with
  | nil => rfl
  | cons a rest ih =>
    rw [List.flatMap_cons, ← ih]
    rfl

mutual

theorem TypeExpr.members_normal : (t : TypeExpr) → t.normal.members = t.members
  | .path _ => rfl
  | .entity _ => rfl
  | .set element => by
    rw [TypeExpr.normal, TypeExpr.members, TypeExpr.members, element.members_normal]
  | .record r => Record.members_normal r
termination_by t => sizeOf t

theorem Record.members_normal : (r : Record TypeExpr) →
    Record.members (Record.normal r) = Record.members r
  | ⟨attributes, comments⟩ => by
    have hattributes := flatMap_values_ofList (writtenAs_normalAttributes attributes)
    rw [← attributeMembers_eq_flatMap] at hattributes
    rw [Record.normal, Record.members, Record.members, hattributes, ofMembers_entries]
    rfl
termination_by r => sizeOf r

theorem writtenAs_normalAttributes : (attributes : List (Attribute TypeExpr)) →
    List.Forall₂ (WrittenAs fun a => attributeMembers [a])
      (attributeMembers attributes) (normalAttributes attributes)
  | [] => .nil
  | ⟨name, type, required, annotations, _⟩ :: rest => by
    refine .cons ⟨rfl, ?_⟩ (writtenAs_normalAttributes rest)
    show [(name, Json.ofMembers (type.normal.members ++
      ("required", .bool required) :: annotationsMember (normalAnnotations annotations)))] = _
    rw [type.members_normal, annotationsMember_normal]
termination_by attributes => sizeOf attributes

end

theorem TypeExpr.document_normal (t : TypeExpr) : t.normal.document = t.document :=
  congrArg Json.ofMembers t.members_normal

theorem EntityDecl.document_normal (d : EntityDecl) (name : String) :
    (d.normal name).document = d.document := by
  have hshape (r : Record TypeExpr) :
      Json.ofMembers (Record.members (Record.normal r)) = .ofMembers (Record.members r) :=
    congrArg Json.ofMembers (Record.members_normal r)
  unfold document normal
  dsimp only
  rw [optionalMember_map hshape, optionalMember_map TypeExpr.document_normal,
    annotationsMember_normal]

theorem EnumDecl.document_normal (d : EnumDecl) (name : String) :
    (d.normal name).document = d.document := by
  unfold document normal
  rw [annotationsMember_normal]

theorem AppliesTo.document_normal (a : AppliesTo) : a.normal.document = a.document := by
  unfold document normal
  rw [optionalMember_map TypeExpr.document_normal]

theorem ActionDecl.document_normal (d : ActionDecl) (name : String) :
    (d.normal name).document = d.document := by
  unfold document normal
  dsimp only
  rw [optionalMember_map AppliesTo.document_normal, annotationsMember_normal]

theorem CommonTypeDecl.document_normal (d : CommonTypeDecl) : d.normal.document = d.document := by
  unfold document normal
  rw [d.type.members_normal, annotationsMember_normal]

/-! ### Namespaces -/

/-- Each name of a declaration is written by itself as it is written among the others. -/
theorem writtenAs_names {membersOf : Decl → List (String × Json)} {names : List String} {j : Json}
    {f : String → Decl} (h : ∀ n, membersOf (f n) = [(n, j)]) :
    List.Forall₂ (WrittenAs membersOf) (names.map fun n => (n, j))
      (names.map fun n => (n, f n)) := by
  rw [List.forall₂_map_left_iff, List.forall₂_map_right_iff, List.forall₂_same]
  exact fun n _ => ⟨rfl, h n⟩

namespace Decl

theorem writtenAs_entityTypeEntries (d : Decl) :
    List.Forall₂ (WrittenAs entityTypeMembers) d.entityTypeMembers d.entityTypeEntries := by
  cases d with
  | entity d =>
    exact writtenAs_names fun n => congrArg (fun j => [(n, j)]) (d.document_normal n)
  | enum d =>
    exact writtenAs_names fun n => congrArg (fun j => [(n, j)]) (d.document_normal n)
  | _ => exact .nil

theorem writtenAs_actionEntries (d : Decl) :
    List.Forall₂ (WrittenAs actionMembers) d.actionMembers d.actionEntries := by
  cases d with
  | action d =>
    exact writtenAs_names fun n => congrArg (fun j => [(n, j)]) (d.document_normal n)
  | _ => exact .nil

theorem writtenAs_commonTypeEntries (d : Decl) :
    List.Forall₂ (WrittenAs commonTypeMembers) d.commonTypeMembers d.commonTypeEntries := by
  cases d with
  | commonType d => exact .cons ⟨rfl, congrArg (fun j => [(d.name, j)]) d.document_normal⟩ .nil
  | _ => exact .nil

end Decl

section

variable {membersOf : Decl → List (String × Json)} {entriesOf : Decl → List (String × Decl)}

theorem flatMap_values_normal (h : ∀ d, List.Forall₂ (WrittenAs membersOf) (membersOf d)
    (entriesOf d)) (decls : List Decl) :
    (Dict.ofList (decls.flatMap entriesOf)).values.flatMap membersOf =
      (Dict.ofList (decls.flatMap membersOf)).entries :=
  flatMap_values_ofList (Document.forall₂_flatMap fun d _ => h d)

theorem flatMap_values_eq_nil (h : ∀ d, ∀ e ∈ entriesOf d, membersOf e.2 = [])
    (decls : List Decl) :
    (Dict.ofList (decls.flatMap entriesOf)).values.flatMap membersOf = [] := by
  rw [List.flatMap_eq_nil_iff]
  intro d' hd'
  obtain ⟨e, he, rfl⟩ := List.mem_map.1 hd'
  obtain ⟨d, -, he⟩ := List.mem_flatMap.1 (Dict.mem_of_mem_ofList he)
  exact h d e he

end

/-- Declarations and their normal forms make the same document of a namespace. -/
theorem namespaceDocument_normalDecls (annotations : List Annotation) (decls : List Decl) :
    namespaceDocument annotations (normalDecls decls) = namespaceDocument annotations decls := by
  have hentityTypes : (normalDecls decls).flatMap Decl.entityTypeMembers =
      (Dict.ofList (decls.flatMap Decl.entityTypeMembers)).entries := by
    rw [normalDecls, List.flatMap_append, List.flatMap_append,
      flatMap_values_normal Decl.writtenAs_entityTypeEntries, flatMap_values_eq_nil,
      flatMap_values_eq_nil, List.nil_append, List.append_nil]
    all_goals
      intro d
      cases d <;> simp [Decl.commonTypeEntries, Decl.actionEntries, Decl.entityTypeMembers]
  have hactions : (normalDecls decls).flatMap Decl.actionMembers =
      (Dict.ofList (decls.flatMap Decl.actionMembers)).entries := by
    rw [normalDecls, List.flatMap_append, List.flatMap_append,
      flatMap_values_normal Decl.writtenAs_actionEntries, flatMap_values_eq_nil,
      flatMap_values_eq_nil, List.nil_append, List.nil_append]
    all_goals
      intro d
      cases d <;> simp [Decl.commonTypeEntries, Decl.entityTypeEntries, Decl.actionMembers]
  have hcommonTypes : (normalDecls decls).flatMap Decl.commonTypeMembers =
      (Dict.ofList (decls.flatMap Decl.commonTypeMembers)).entries := by
    rw [normalDecls, List.flatMap_append, List.flatMap_append,
      flatMap_values_normal Decl.writtenAs_commonTypeEntries, flatMap_values_eq_nil,
      flatMap_values_eq_nil, List.append_nil, List.append_nil]
    all_goals
      intro d
      cases d <;> simp [Decl.entityTypeEntries, Decl.actionEntries, Decl.commonTypeMembers]
  rw [namespaceDocument, hentityTypes, hactions, hcommonTypes]
  simp only [ofMembers_entries]
  rfl

theorem namespaceDocument_normalAnnotations (annotations : List Annotation) (decls : List Decl) :
    namespaceDocument (normalAnnotations annotations) decls =
      namespaceDocument annotations decls := by
  rw [namespaceDocument, annotationsMember_normal, namespaceDocument]

/-! ## Normal forms of what is respelled are tidy -/

mutual

theorem TypeExpr.tidy_normal_respelled : (t : TypeExpr) → t.respelled.normal.Tidy
  | .path p => p.spelled_respelled
  | .entity p => p.spelled_respelled
  | .set element => element.tidy_normal_respelled
  | .record r => Record.tidy_normal_respelled r
termination_by t => sizeOf t

theorem Record.tidy_normal_respelled : (r : Record TypeExpr) →
    Record.Tidy (Record.normal (Record.respelled r))
  | ⟨attributes, comments⟩ => by
    refine ⟨Document.tidyAttributes_of_forall fun a ha => ?_,
      nodup_normal_names ⟨respelledAttributes attributes, comments⟩⟩
    obtain ⟨e, he, rfl⟩ := List.mem_map.1 ha
    exact tidy_normalAttributes_respelled attributes e (Dict.mem_of_mem_ofList he)
termination_by r => sizeOf r

theorem tidy_normalAttributes_respelled : (attributes : List (Attribute TypeExpr)) →
    ∀ e ∈ normalAttributes (respelledAttributes attributes), e.2.type.Tidy
  | [] => nofun
  | ⟨_, type, _, _, _⟩ :: rest =>
    List.forall_mem_cons.2 ⟨type.tidy_normal_respelled, tidy_normalAttributes_respelled rest⟩
termination_by attributes => sizeOf attributes

end

/-- An enumerated entity type has a value at least. -/
def Decl.HasValues : Decl → Prop
  | .enum d => d.values ≠ []
  | _ => True

theorem spelled_of_mem_respelled {paths : List Path} :
    ∀ p ∈ paths.map Path.respelled, p.Spelled :=
  List.forall_mem_map.2 fun p _ => p.spelled_respelled

theorem forall_mem_option_map {α β : Type} {P : β → Prop} {f : α → β} (h : ∀ a, P (f a))
    (o : Option α) : ∀ b ∈ o.map f, P b := by
  rintro b hb
  obtain ⟨a, -, rfl⟩ := Option.map_eq_some_iff.1 hb
  exact h a

theorem AppliesTo.tidy_normal_respelled (a : AppliesTo) : a.respelled.normal.Tidy where
  principals := forall_mem_option_map (fun _ => spelled_of_mem_respelled) _
  resources := forall_mem_option_map (fun _ => spelled_of_mem_respelled) _
  context := by
    show ∀ t ∈ (a.context.map TypeExpr.respelled).map TypeExpr.normal, t.Tidy
    rw [Option.map_map]
    exact forall_mem_option_map TypeExpr.tidy_normal_respelled _

theorem EntityDecl.tidy_normal_respelled (d : EntityDecl) (name : String) :
    (d.respelled.normal name).Tidy where
  names := List.cons_ne_nil _ _
  parents := spelled_of_mem_respelled
  shape := by
    show ∀ r ∈ (d.shape.map Record.respelled).map Record.normal, Record.Tidy r
    rw [Option.map_map]
    exact forall_mem_option_map Record.tidy_normal_respelled _
  tags := by
    show ∀ t ∈ (d.tags.map TypeExpr.respelled).map TypeExpr.normal, t.Tidy
    rw [Option.map_map]
    exact forall_mem_option_map TypeExpr.tidy_normal_respelled _

theorem ActionDecl.tidy_normal_respelled (d : ActionDecl) (name : String) :
    (d.respelled.normal name).Tidy where
  names := List.cons_ne_nil _ _
  parents := List.forall_mem_map.2 fun r _ =>
    forall_mem_option_map Path.spelled_respelled r.type
  appliesTo := by
    show ∀ a ∈ (d.appliesTo.map AppliesTo.respelled).map AppliesTo.normal, a.Tidy
    rw [Option.map_map]
    exact forall_mem_option_map AppliesTo.tidy_normal_respelled _

theorem Decl.tidy_of_mem_normals_respelled {d d' : Decl} (hvalues : d.HasValues)
    (h : d' ∈ d.respelled.normals) : d'.Tidy := by
  cases d with
  | entity d =>
    obtain ⟨n, -, rfl⟩ := List.mem_map.1 h
    exact d.tidy_normal_respelled n
  | enum d =>
    obtain ⟨n, -, rfl⟩ := List.mem_map.1 h
    exact ⟨List.cons_ne_nil _ _, hvalues⟩
  | action d =>
    obtain ⟨n, -, rfl⟩ := List.mem_map.1 h
    exact d.tidy_normal_respelled n
  | commonType d =>
    obtain rfl := List.mem_singleton.1 h
    exact d.type.tidy_normal_respelled

end CedarSchema
