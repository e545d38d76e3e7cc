import CedarSchema.Document.Reader
import CedarSchema.Proofs.Document.Normal
import CedarSchema.Proofs.Resolve.Declarations

/-
  Reading the document of a schema gives the normal form of the schema back. What is written under
  a key is found under it again, and each part of a document is read as the normal form of what it
  was written for. The entries of an object are read in the order of their keys, of equal keys the
  last; that is how the normal form has them.
-/

namespace CedarSchema

namespace Document

/-! ## Members and items -/

section

variable {α β : Type} {members : List (String × Json)} {key : String}

@[simp] theorem findEntry_ofList (l : List (String × Json)) (k : String) :
    findEntry k (Dict.ofList l).entries = (Dict.ofList l).find? k := rfl

@[simp] theorem find?_optionalMember (write : α → Json) (a : Option α) (k : String) :
    (Dict.ofList (optionalMember key write a)).find? k = if k = key then a.map write else none := by
  cases a with
  | none => exact (ite_self none).symm
  | some a => exact Dict.find?_ofList_cons (key, write a) [] k

theorem optional_eq {read : Json → Except ShapeError β} {write : α → Json} {f : α → β}
    {a : Option α} (hfind : findEntry key members = a.map write)
    (h : ∀ x ∈ a, read (write x) = .ok (f x)) : optional members key read = .ok (a.map f) := by
  rw [optional, hfind]
  cases a with
  | none => rfl
  | some x =>
    rw [Option.map_some]
    exact congrArg (fun r => some <$> under key r) (h x rfl)

@[simp] theorem under_ok (key : String) (b : β) : under key (.ok b) = .ok b := rfl

theorem optional_eq_some {read : Json → Except ShapeError β} {j : Json} {b : β}
    (hfind : findEntry key members = some j) (h : read j = .ok b) :
    optional members key read = .ok (some b) := by
  rw [optional, hfind]
  exact congrArg (fun r => some <$> under key r) h

theorem required_eq {read : Json → Except ShapeError β} {missing : ShapeFault} {j : Json} {b : β}
    (hfind : findEntry key members = some j) (h : read j = .ok b) :
    required members key missing read = .ok b := by
  rw [required, hfind]
  exact congrArg (under key) h

theorem allowOnly_eq_ok {known : List String} (h : ∀ e ∈ members, e.1 ∈ known) :
    allowOnly known members = .ok () := by
  have hfind : (members.find? fun e => !known.contains e.1) = none := by
    simpa [List.find?_eq_none] using fun k j he => h (k, j) he
  rw [allowOnly, hfind]

theorem eachItem_map {read : Json → Except ShapeError β} {write : α → Json} {f : α → β}
    {l : List α} (h : ∀ a ∈ l, read (write a) = .ok (f a)) :
    eachItem read (.array (l.map write)) = .ok (l.map f) := by
  have hfrom (n : Nat) : ((l.map write).zipIdx n).mapM
      (fun x => under (toString x.2) (read x.1)) = .ok (l.map f) := by
    induction l generalizing n with
    | nil => rfl
    | cons a l ih =>
      obtain ⟨ha, hl⟩ := List.forall_mem_cons.1 h
      rw [List.map_cons, List.zipIdx_cons, List.mapM_cons, ih hl, ha]
      rfl
  exact hfrom 0

/-- The member is read as the value of the entry, and both have the same key. -/
def MemberReads (read : String → Json → Except ShapeError β) (m : String × Json)
    (e : String × β) : Prop := m.1 = e.1 ∧ read m.1 m.2 = .ok e.2

theorem mapM_members {read : String → Json → Except ShapeError β} {entries : List (String × β)}
    (h : List.Forall₂ (MemberReads read) members entries) :
    members.mapM (fun m => under m.1 (read m.1 m.2)) = .ok (entries.map Prod.snd) := by
  induction h with
  | nil => rfl
  | cons hme _ ih =>
    rw [List.mapM_cons, ih, hme.2]
    rfl

/-- An object is read entry by entry; of equal keys the last one is read. -/
theorem eachMember_ofMembers {read : String → Json → Except ShapeError β}
    {entries : List (String × β)} (h : List.Forall₂ (MemberReads read) members entries) :
    eachMember read (.ofMembers members) = .ok (Dict.ofList entries).values :=
  mapM_members (Dict.forall₂_ofList (fun _ _ hme => hme.1) h)

end

/-! ## Texts -/

section

variable {members : List (String × Json)}

theorem pathOf_text {p : Path} (h : p.Spelled) : pathOf (.string p.text) = .ok p :=
  congrArg Except.ok h

theorem pathsOf_pathTexts {paths : List Path} (h : ∀ p ∈ paths, p.Spelled) :
    pathsOf (pathTexts paths) = .ok paths := by
  have hread : eachItem pathOf (.array (paths.map fun p => .string p.text)) =
      .ok (paths.map id) := eachItem_map fun p hp => pathOf_text (h p hp)
  rw [List.map_id] at hread
  rw [pathsOf, pathTexts, Json.ofStrings, List.map_map]
  exact hread

theorem textsOf_ofStrings (texts : List String) : textsOf (.ofStrings texts) = .ok texts := by
  have hread : eachItem textOf (.array (texts.map Json.string)) = .ok (texts.map id) :=
    eachItem_map fun _ _ => rfl
  rwa [List.map_id] at hread

theorem annotationsOf_ofTexts (d : Dict String String) : annotationsOf (.ofTexts d) =
    .ok (d.entries.map fun (key, value) => ⟨key, if value.isEmpty then none else some value⟩) := by
  unfold annotationsOf eachMember Json.ofTexts
  show List.mapM _ _ = _
  induction d.entries with
  | nil => rfl
  | cons e l ih =>
    rw [List.map_cons, List.mapM_cons, ih]
    rfl

/-- The annotations that are written, if there are any. -/
def annotationsWritten (annotations : List Annotation) : Option (Dict String String) :=
  if annotations.isEmpty then none else some (annotationDict annotations)

theorem annotationsMember_eq (annotations : List Annotation) : annotationsMember annotations =
    optionalMember "annotations" Json.ofTexts (annotationsWritten annotations) := by
  unfold annotationsMember annotationsWritten
  split <;> rfl

theorem annotationsIn_eq (annotations : List Annotation)
    (h : findEntry "annotations" members = (annotationsWritten annotations).map Json.ofTexts) :
    annotationsIn members = .ok (normalAnnotations annotations) := by
  have hread := optional_eq h fun d _ => annotationsOf_ofTexts d
  rw [annotationsIn, hread]
  cases annotations <;> rfl

end

/-! ## Types -/

/-- The keys that say what type an object stands for. -/
def typeKeys : List String := ["type", "name", "element", "attributes"]

theorem find?_members_eq_none {k : String} (h : k ∉ typeKeys) (t : TypeExpr) :
    (Dict.ofList t.members).find? k = none := by
  simp only [typeKeys, List.mem_cons, List.not_mem_nil, not_or, or_false] at h
  obtain ⟨htype, hname, helement, hattributes⟩ := h
  cases t with
  | record r =>
    obtain ⟨attributes, comments⟩ := r
    simp [TypeExpr.members, Record.members, htype, hattributes]
  | _ =>
    simp [TypeExpr.members, htype, hname, helement]

/-- The members say nothing of the type of an object. -/
def Apart (extra : List (String × Json)) : Prop :=
  ∀ k ∈ typeKeys, (Dict.ofList extra).find? k = none

section

variable {extra : List (String × Json)}

/-- What is said of a type is not changed by what stands beside it. -/
theorem findEntry_append (h : Apart extra) (l : List (String × Json)) {k : String}
    (hk : k ∈ typeKeys) :
    findEntry k (Dict.ofList (l ++ extra)).entries = (Dict.ofList l).find? k := by
  rw [findEntry_ofList, Dict.find?_ofList_append, h k hk, Option.none_or]

theorem required_type (h : Apart extra) {l : List (String × Json)} {tag : String}
    (htag : (Dict.ofList l).find? "type" = some (.string tag)) :
    required (Dict.ofList (l ++ extra)).entries "type" .missingType textOf = .ok tag :=
  required_eq ((findEntry_append h l (by decide)).trans htag) rfl

theorem nameIn_eq (h : Apart extra) {l : List (String × Json)} {p : Path} (hp : p.Spelled)
    (hname : (Dict.ofList l).find? "name" = some (.string p.text)) (tag : String) :
    nameIn (Dict.ofList (l ++ extra)).entries tag = .ok p :=
  required_eq ((findEntry_append h l (by decide)).trans hname) (pathOf_text hp)

theorem typeOf_path (h : Apart extra) {p : Path} (hp : p.Spelled) :
    typeOf (.ofMembers ((TypeExpr.path p).members ++ extra)) = .ok (.path p) := by
  rw [Json.ofMembers, typeOf, required_type h (by simp [TypeExpr.members]; rfl)]
  show TypeExpr.path <$> nameIn _ _ = _
  rw [nameIn_eq h hp (by simp [TypeExpr.members])]
  rfl

theorem typeOf_entity (h : Apart extra) {p : Path} (hp : p.Spelled) :
    typeOf (.ofMembers ((TypeExpr.entity p).members ++ extra)) = .ok (.entity p) := by
  rw [Json.ofMembers, typeOf, required_type h (by simp [TypeExpr.members]; rfl)]
  show TypeExpr.entity <$> nameIn _ _ = _
  rw [nameIn_eq h hp (by simp [TypeExpr.members])]
  rfl

theorem typeOf_set (h : Apart extra) {element type : TypeExpr}
    (helement : typeOf element.document = .ok type) :
    typeOf (.ofMembers ((TypeExpr.set element).members ++ extra)) = .ok (.set type) := by
  rw [Json.ofMembers, typeOf, required_type h (by simp [TypeExpr.members]; rfl)]
  show TypeExpr.set <$> elementOf _ = _
  rw [elementOf_eq_required, required_eq _ helement]
  · rfl
  · rw [findEntry_append h _ (by decide)]
    simp [TypeExpr.members, TypeExpr.document]

theorem typeOf_record (h : Apart extra) {attributes attributes' : List (Attribute TypeExpr)}
    {comments : Comments}
    (hattributes : attributesOf (.ofMembers (attributeMembers attributes)) = .ok attributes') :
    typeOf (.ofMembers ((TypeExpr.record ⟨attributes, comments⟩).members ++ extra)) =
      .ok (.record { attributes := attributes' }) := by
  rw [Json.ofMembers, typeOf, required_type h (by simp [TypeExpr.members, Record.members]; rfl)]
  show (fun a => TypeExpr.record ⟨a, {}⟩) <$> attributesIn _ = _
  rw [attributesIn_eq_optional, optional_eq_some _ hattributes]
  · rfl
  · rw [findEntry_append h _ (by decide)]
    simp [TypeExpr.members, Record.members]

end

/-- One attribute of a record. -/
def attributeOf (name : String) (j : Json) : Except ShapeError (Attribute TypeExpr) := do
  let members ← membersOf j
  let required ← isRequiredIn members
  let type ← typeOf j
  let annotations ← annotationsIn members
  return { name, type, required, annotations }

theorem attributeList_eq (members : List (String × Json)) :
    attributeList members = members.mapM fun m => under m.1 (attributeOf m.1 m.2) := by
  induction members with
  | nil => rfl
  | cons m members ih =>
    rw [attributeList, ih, List.mapM_cons]
    rfl

theorem attributesOf_ofMembers {members : List (String × Json)}
    {entries : List (String × Attribute TypeExpr)}
    (h : List.Forall₂ (MemberReads attributeOf) members entries) :
    attributesOf (.ofMembers members) = .ok (Dict.ofList entries).values := by
  rw [Json.ofMembers, attributesOf, attributeList_eq]
  exact mapM_members (Dict.forall₂_ofList (fun _ _ hme => hme.1) h)

/-- What is said of an attribute besides its type. -/
def attributeDetails (required : Bool) (annotations : List Annotation) : List (String × Json) :=
  ("required", .bool required) :: annotationsMember annotations

theorem apart_annotationsMember (annotations : List Annotation) :
    Apart (annotationsMember annotations) := by
  rw [annotationsMember_eq]
  intro k hk
  rw [find?_optionalMember, if_neg]
  rintro rfl
  exact absurd hk (by decide)

theorem apart_attributeDetails (required : Bool) (annotations : List Annotation) :
    Apart (attributeDetails required annotations) := by
  intro k hk
  have hrequired : "required" ∉ typeKeys := by decide
  rw [attributeDetails, Dict.find?_ofList_cons, apart_annotationsMember annotations k hk,
    if_neg (ne_of_mem_of_not_mem hk hrequired)]
  rfl

theorem membersOf_ofMembers (l : List (String × Json)) :
    membersOf (.ofMembers l) = .ok (Dict.ofList l).entries := rfl

theorem attributeOf_document {type type' : TypeExpr} {required : Bool}
    {annotations : List Annotation} (name : String)
    (htype : typeOf (.ofMembers (type.members ++ attributeDetails required annotations)) =
      .ok type') :
    attributeOf name (.ofMembers (type.members ++ attributeDetails required annotations)) =
      .ok { name, type := type', required, annotations := normalAnnotations annotations } := by
  have hno : (Dict.ofList type.members).find? "annotations" = none :=
    find?_members_eq_none (by decide) type
  rw [attributeOf, membersOf_ofMembers, ok_bind, htype, annotationsIn_eq annotations]
  · simp [isRequiredIn, attributeDetails, annotationsMember_eq]
  · simp [attributeDetails, annotationsMember_eq, hno]

mutual

/-- A type is read as its normal form from the object that stands for it, whatever else is said in
the object. -/
theorem typeOf_members : (t : TypeExpr) → t.Tidy → ∀ {extra : List (String × Json)}, Apart extra →
    typeOf (.ofMembers (t.members ++ extra)) = .ok t.normal
  | .path _, ht, _, h => typeOf_path h ht
  | .entity _, ht, _, h => typeOf_entity h ht
  | .set element, ht, _, h => by
    have helement := @typeOf_members element ht [] fun _ _ => rfl
    rw [List.append_nil] at helement
    exact typeOf_set h helement
  | .record r, ht, _, h => typeOf_recordMembers r ht h
termination_by t => sizeOf t

theorem typeOf_recordMembers : (r : Record TypeExpr) → Record.Tidy r →
    ∀ {extra : List (String × Json)}, Apart extra →
      typeOf (.ofMembers (Record.members r ++ extra)) = .ok (.record (Record.normal r))
  | ⟨attributes, _⟩, ⟨ht, _⟩, _, h =>
    typeOf_record h (attributesOf_ofMembers (forall₂_attributeMembers attributes ht))
termination_by r => sizeOf r

theorem forall₂_attributeMembers : (attributes : List (Attribute TypeExpr)) →
    TidyAttributes attributes →
      List.Forall₂ (MemberReads attributeOf) (attributeMembers attributes)
        (normalAttributes attributes)
  | [], _ => .nil
  | ⟨name, type, required, annotations, _⟩ :: rest, ⟨ht, hrest⟩ => by
    have htype := typeOf_members type ht (apart_attributeDetails required annotations)
    exact .cons ⟨rfl, attributeOf_document name htype⟩ (forall₂_attributeMembers rest hrest)
termination_by attributes => sizeOf attributes

end

theorem typeOf_document {t : TypeExpr} (h : t.Tidy) : typeOf t.document = .ok t.normal := by
  have hread := @typeOf_members t h [] fun _ _ => rfl
  rwa [List.append_nil] at hread

/-! ## Declarations -/

theorem commonTypeOf_document {d : CommonTypeDecl} (h : d.type.Tidy) :
    commonTypeOf d.name d.document = .ok (.commonType d.normal) := by
  have hno : (Dict.ofList d.type.members).find? "annotations" = none :=
    find?_members_eq_none (by decide) d.type
  rw [commonTypeOf, CommonTypeDecl.document, membersOf_ofMembers, ok_bind,
    annotationsIn_eq d.annotations, ok_bind,
    typeOf_members d.type h (apart_annotationsMember d.annotations)]
  · rfl
  · simp [annotationsMember_eq, hno]

theorem shapeOf_document {r : Record TypeExpr} (h : Record.Tidy r) :
    shapeOf (.ofMembers (Record.members r)) = .ok (Record.normal r) := by
  have hread := @typeOf_recordMembers r h [] fun _ _ => rfl
  rw [List.append_nil] at hread
  rw [shapeOf, hread]
  rfl

/-- Each member that is written bears a known key. -/
theorem allowOnly_ofList {known : List String} {l : List (String × Json)}
    (h : ∀ e ∈ l, e.1 ∈ known) : allowOnly known (Dict.ofList l).entries = .ok () :=
  allowOnly_eq_ok fun e he => h e (Dict.mem_of_mem_ofList he)

theorem mem_optionalMember {α : Type} {key : String} {write : α → Json} {a : Option α}
    {e : String × Json} (h : e ∈ optionalMember key write a) : e.1 = key := by
  cases a with
  | none => cases h
  | some a => rw [List.mem_singleton.1 h]

theorem entityTypeOf_entity {d : EntityDecl} (h : d.Tidy) (name : String) :
    entityTypeOf name d.document = .ok (.entity (d.normal name)) := by
  have hknown : ∀ e ∈ ("memberOfTypes", pathTexts d.parents) ::
      (optionalMember "shape" (fun r => .ofMembers (Record.members r)) d.shape ++
        optionalMember "tags" TypeExpr.document d.tags ++ annotationsMember d.annotations),
      e.1 ∈ ["memberOfTypes", "shape", "tags", "annotations"] := by
    simp only [annotationsMember_eq, List.mem_cons, List.mem_append]
    rintro e (rfl | (he | he) | he)
    · simp
    all_goals simp [mem_optionalMember he]
  rw [entityTypeOf, EntityDecl.document, membersOf_ofMembers, ok_bind,
    annotationsIn_eq d.annotations, ok_bind, if_neg, allowOnly_ofList hknown, ok_bind,
    optional_eq_some _ (pathsOf_pathTexts h.parents), ok_bind,
    optional_eq _ fun r hr => shapeOf_document (h.shape r hr), ok_bind,
    optional_eq _ fun t ht => typeOf_document (h.tags t ht), ok_bind]
  · rfl
  all_goals simp [annotationsMember_eq]

theorem entityTypeOf_enum {d : EnumDecl} (h : d.Tidy) (name : String) :
    entityTypeOf name d.document = .ok (.enum (d.normal name)) := by
  have hknown : ∀ e ∈ ("enum", Json.ofStrings d.values) :: annotationsMember d.annotations,
      e.1 ∈ ["enum", "annotations"] := by
    simp only [annotationsMember_eq, List.mem_cons]
    rintro e (rfl | he)
    · simp
    · simp [mem_optionalMember he]
  have hvalues : enumValuesOf (.ofStrings d.values) = .ok d.values := by
    rw [enumValuesOf, textsOf_ofStrings, ok_bind, if_neg]
    · rfl
    · simpa using h.values
  rw [entityTypeOf, EnumDecl.document, membersOf_ofMembers, ok_bind,
    annotationsIn_eq d.annotations, ok_bind, if_pos, allowOnly_ofList hknown, ok_bind,
    optional_eq_some _ hvalues, ok_bind]
  · rfl
  all_goals simp [annotationsMember_eq]

theorem actionRefOf_document {r : ActionRef} (h : ∀ p ∈ r.type, p.Spelled) :
    actionRefOf r.document = .ok r := by
  have hid : textOf (.string r.id) = .ok r.id := rfl
  rw [actionRefOf, ActionRef.document, membersOf_ofMembers, ok_bind, required_eq _ hid, ok_bind,
    optional_eq _ fun p hp => pathOf_text (h p hp), ok_bind]
  · rw [Option.map_id']
    rfl
  all_goals simp

theorem appliesToOf_document {a : AppliesTo} (h : a.Tidy) :
    appliesToOf a.document = .ok a.normal := by
  have hknown : ∀ e ∈ optionalMember "principalTypes" pathTexts a.principals ++
      optionalMember "resourceTypes" pathTexts a.resources ++
      optionalMember "context" TypeExpr.document a.context,
      e.1 ∈ ["principalTypes", "resourceTypes", "context"] := by
    simp only [List.mem_append]
    rintro e ((he | he) | he)
    all_goals simp [mem_optionalMember he]
  rw [appliesToOf, AppliesTo.document, membersOf_ofMembers, ok_bind, allowOnly_ofList hknown,
    ok_bind, optional_eq _ fun ps hps => pathsOf_pathTexts (h.principals ps hps), ok_bind,
    optional_eq _ fun rs hrs => pathsOf_pathTexts (h.resources rs hrs), ok_bind,
    optional_eq _ fun t ht => typeOf_document (h.context t ht), ok_bind]
  · rw [Option.map_id', Option.map_id']
    rfl
  all_goals simp

theorem actionOf_document {d : ActionDecl} (h : d.Tidy) (name : String) :
    actionOf name d.document = .ok (.action (d.normal name)) := by
  have hknown : ∀ e ∈ ("memberOf", Json.array (d.parents.map ActionRef.document)) ::
      (optionalMember "appliesTo" AppliesTo.document d.appliesTo ++
        annotationsMember d.annotations),
      e.1 ∈ ["memberOf", "appliesTo", "annotations"] := by
    simp only [annotationsMember_eq, List.mem_cons, List.mem_append]
    rintro e (rfl | he | he)
    · simp
    all_goals simp [mem_optionalMember he]
  have hparents : eachItem actionRefOf (.array (d.parents.map ActionRef.document)) =
      .ok (d.parents.map id) :=
    eachItem_map fun r hr => actionRefOf_document (h.parents r hr)
  rw [actionOf, ActionDecl.document, membersOf_ofMembers, ok_bind, allowOnly_ofList hknown,
    ok_bind, annotationsIn_eq d.annotations, ok_bind, optional_eq_some _ hparents, ok_bind,
    optional_eq _ fun a ha => appliesToOf_document (h.appliesTo a ha), ok_bind]
  · rw [List.map_id]
    rfl
  all_goals simp [annotationsMember_eq]

/-! ## Namespaces -/

section

variable {decls : List Decl}

theorem forall₂_flatMap {α β γ : Type} {R : β → γ → Prop} {f : α → List β} {g : α → List γ}
    {l : List α} (h : ∀ a ∈ l, List.Forall₂ R (f a) (g a)) :
    List.Forall₂ R (l.flatMap f) (l.flatMap g) := by
  induction l with
  | nil => exact .nil
  | cons a l ih =>
    obtain ⟨ha, hl⟩ := List.forall_mem_cons.1 h
    exact List.rel_append ha (ih hl)

/-- Each name of a declaration stands over the same value. -/
theorem forall₂_names {read : String → Json → Except ShapeError Decl} {names : List String}
    {j : Json} {f : String → Decl} (h : ∀ n, read n j = .ok (f n)) :
    List.Forall₂ (MemberReads read) (names.map fun n => (n, j)) (names.map fun n => (n, f n)) := by
  rw [List.forall₂_map_left_iff, List.forall₂_map_right_iff, List.forall₂_same]
  exact fun n _ => ⟨rfl, h n⟩

theorem commonTypes_read (h : ∀ d ∈ decls, d.Tidy) :
    List.Forall₂ (MemberReads commonTypeOf) (decls.flatMap Decl.commonTypeMembers)
      (decls.flatMap Decl.commonTypeEntries) := by
  refine forall₂_flatMap fun d hd => ?_
  have hd := h d hd
  cases d with
  | commonType d => exact .cons ⟨rfl, commonTypeOf_document hd⟩ .nil
  | _ => exact .nil

theorem entityTypes_read (h : ∀ d ∈ decls, d.Tidy) :
    List.Forall₂ (MemberReads entityTypeOf) (decls.flatMap Decl.entityTypeMembers)
      (decls.flatMap Decl.entityTypeEntries) := by
  refine forall₂_flatMap fun d hd => ?_
  have hd := h d hd
  cases d with
  | entity d => exact forall₂_names (entityTypeOf_entity hd)
  | enum d => exact forall₂_names (entityTypeOf_enum hd)
  | _ => exact .nil

theorem actions_read (h : ∀ d ∈ decls, d.Tidy) :
    List.Forall₂ (MemberReads actionOf) (decls.flatMap Decl.actionMembers)
      (decls.flatMap Decl.actionEntries) := by
  refine forall₂_flatMap fun d hd => ?_
  have hd := h d hd
  cases d with
  | action d => exact forall₂_names (actionOf_document hd)
  | _ => exact .nil

theorem declsUnder_ofMembers {members declMembers : List (String × Json)} {key : String}
    {read : String → Json → Except ShapeError Decl} {entries : List (String × Decl)}
    (hfind : findEntry key members = some (.ofMembers declMembers))
    (h : List.Forall₂ (MemberReads read) declMembers entries) :
    declsUnder members key read = .ok (Dict.ofList entries).values := by
  rw [declsUnder, optional_eq_some hfind (eachMember_ofMembers h)]
  rfl

/-- The annotations of a namespace are read wherever they stand among its members. -/
theorem namespaceAnnotations_eq {d : Dict String Json} (annotations : List Annotation)
    (hkeys : ∀ e ∈ d.entries, e.1 ∈ ["annotations", "entityTypes", "actions", "commonTypes"])
    (hfind : d.find? "annotations" = (annotationsWritten annotations).map Json.ofTexts) :
    namespaceAnnotations d.entries = .ok (normalAnnotations annotations) := by
  have hread {j : Json} (hj : ("annotations", j) ∈ d.entries) :
      annotationsOf j = .ok (normalAnnotations annotations) := by
    rw [Dict.mem_entries_iff.1 hj, annotationsWritten] at hfind
    split at hfind
    · cases hfind
    · cases hfind
      exact annotationsOf_ofTexts _
  have hfold (l : List (String × Json)) (hl : ∀ e ∈ l, e ∈ d.entries) (found : List Annotation) :
      l.foldlM (fun found e => under e.1 (
        if e.1 = "annotations" then annotationsOf e.2
        else if ["entityTypes", "actions", "commonTypes"].contains e.1 then .ok found
        else fail .unknownNamespaceField)) found =
      .ok (if "annotations" ∈ l.map Prod.fst then normalAnnotations annotations else found) := by
    induction l generalizing found with
    | nil => rfl
    | cons e l ih =>
      obtain ⟨he, hrest⟩ := List.forall_mem_cons.1 hl
      obtain ⟨k, j⟩ := e
      rw [List.foldlM_cons]
      by_cases hk : k = "annotations"
      · subst hk
        rw [if_pos rfl, hread he, under_ok, ok_bind, ih hrest, ite_self, List.map_cons,
          if_pos List.mem_cons_self]
      · have hknown : ["entityTypes", "actions", "commonTypes"].contains k = true := by
          rw [List.contains_iff_mem]
          exact (List.mem_cons.1 (hkeys _ he)).resolve_left hk
        rw [if_neg hk, if_pos hknown, under_ok, ok_bind, ih hrest]
        simp only [List.map_cons, List.mem_cons, Ne.symm hk, false_or]
  refine (hfold d.entries (fun _ => id) []).trans (congrArg Except.ok ?_)
  split
  · rfl
  · rename_i hno
    have hnone : d.find? "annotations" = none := by
      rw [Option.eq_none_iff_forall_ne_some]
      exact fun j hj => hno (Dict.mem_keys_of_find? hj)
    rw [hnone, annotationsWritten] at hfind
    split at hfind
    · rename_i hempty
      rw [List.isEmpty_iff.1 hempty]
      rfl
    · cases hfind

theorem namespaceOf_document {name : String} {annotations : List Annotation}
    (hroot : name = "" → annotations = []) (h : ∀ d ∈ decls, d.Tidy) :
    namespaceOf name (namespaceDocument annotations decls) =
      .ok (normalItems name annotations decls) := by
  have hkeys : ∀ e ∈ annotationsMember annotations ++
      [("entityTypes", Json.ofMembers (decls.flatMap Decl.entityTypeMembers)),
        ("actions", .ofMembers (decls.flatMap Decl.actionMembers)),
        ("commonTypes", .ofMembers (decls.flatMap Decl.commonTypeMembers))],
      e.1 ∈ ["annotations", "entityTypes", "actions", "commonTypes"] := by
    simp only [annotationsMember_eq, List.mem_append, List.mem_cons, List.not_mem_nil, or_false]
    rintro e (he | rfl | rfl | rfl)
    · simp [mem_optionalMember he]
    all_goals simp
  rw [namespaceOf, namespaceDocument, membersOf_ofMembers, ok_bind,
    namespaceAnnotations_eq annotations fun e he => hkeys e (Dict.mem_of_mem_ofList he), ok_bind,
    declsUnder_ofMembers _ (commonTypes_read h), ok_bind,
    declsUnder_ofMembers _ (entityTypes_read h), ok_bind,
    declsUnder_ofMembers _ (actions_read h), ok_bind]
  · unfold normalItems normalDecls
    split
    · rfl
    · rename_i hname
      rw [not_not] at hname
      rw [hroot hname, if_pos hname]
      rfl
  all_goals simp [annotationsMember_eq]

end

end Document

/-! ## Schemas -/

namespace Schema

variable {s : Schema}

theorem mem_declarations_of_namespaces {e : String × List Decl} (he : e ∈ s.namespaces.entries)
    {d : Decl} (hd : d ∈ e.2) : ⟨e.1, d⟩ ∈ s.declarations :=
  s.scopedDecls_perm.mem_iff.1 (List.mem_flatMap.2 ⟨e, he, List.mem_map_of_mem hd⟩)

theorem Tidy.of_mem_declarations (h : s.Tidy) {d : Scoped Decl} (hd : d ∈ s.declarations) :
    d.decl.Tidy := by
  obtain ⟨i, hi, hd⟩ := List.mem_flatMap.1 hd
  obtain ⟨d, hd', rfl⟩ := List.mem_map.1 hd
  have hi := h i hi
  cases i with
  | block b => exact hi.2 d hd'
  | decl d' => exact List.mem_singleton.1 hd' ▸ hi

theorem Tidy.annotationsOf_root (h : s.Tidy) : s.annotationsOf "" = [] := by
  rw [annotationsOf, List.flatMap_eq_nil_iff]
  intro i hi
  have hi := h i hi
  cases i with
  | block b => exact if_neg hi.1
  | decl d => rfl

/-- The document of a tidy schema is read as the normal form of the schema. -/
theorem Tidy.ofDocument_document (h : s.Tidy) : ofDocument s.document = .ok s.normal := by
  have hread : List.Forall₂ (Document.MemberReads Document.namespaceOf)
      (s.namespaces.entries.map fun e => (e.1, namespaceDocument (s.annotationsOf e.1) e.2))
      (s.namespaces.entries.map fun e => (e.1, normalItems e.1 (s.annotationsOf e.1) e.2)) := by
    rw [List.forall₂_map_left_iff, List.forall₂_map_right_iff, List.forall₂_same]
    intro e he
    refine ⟨rfl, Document.namespaceOf_document ?_ ?_⟩
    · intro hroot
      rw [hroot, h.annotationsOf_root]
    · exact fun d hd => h.of_mem_declarations (mem_declarations_of_namespaces he hd)
  have hitems : Document.eachMember Document.namespaceOf s.document = _ :=
    Document.mapM_members hread
  rw [ofDocument, hitems, ok_bind, List.map_map, ← List.flatMap_def]
  rfl

end Schema

end CedarSchema
