import CedarSchema.Proofs.Document.Reader
import CedarSchema.Proofs.Json.Text
import CedarSchema.Proofs.Path

/-
  What is read from a document. Each declaration that is read has one name, no comments, and no key
  of an annotation and no attribute of a record twice, since the keys of an object are distinct; its
  paths are spelled by their texts. Of the types in it we know whatever all the ways of reading a
  type give (`GivenByReading`), so that the reader is gone through once for all properties of types.
-/

namespace CedarSchema

open Text

/-! ## Paths -/

theorem Path.spelled_ofText (text : String) : (Path.ofText text).Spelled := by
  rw [Path.Spelled, Path.text_ofText]

namespace Document

open Json

/-- Whatever is read, `P` holds of it. -/
abbrev Only {α : Type} (r : Except ShapeError α) (P : α → Prop) : Prop := Ends (fun _ => True) r P

section

variable {α β : Type} {P : α → Prop} {members : List (String × Json)} {key : String}

theorem only_true (r : Except ShapeError α) : Only r fun _ => True := by
  cases r <;> trivial

theorem only_under {r : Except ShapeError α} (h : Only r P) : Only (under key r) P := by
  cases r with
  | ok a => exact h
  | error e => trivial

theorem only_membersOf {j : Json} (h : j.Readable) : Only (membersOf j) fun members =>
    (members.map Prod.fst).Nodup ∧ ∀ e ∈ members, e.2.Readable := by
  cases j with
  | object members => exact ⟨h.1.nodup_keys, readableMembers_iff.1 h.2⟩
  | _ => trivial

variable (hm : ∀ e ∈ members, e.2.Readable)

include hm

theorem only_optional {read : Json → Except ShapeError α} (h : ∀ j, j.Readable → Only (read j) P) :
    Only (optional members key read) fun found => ∀ a ∈ found, P a := by
  rw [optional]
  split
  · rename_i j hj
    refine Ends.map ((only_under (h j (hm _ (mem_of_findEntry hj)))).imp ?_)
    rintro a ha _ ⟨⟩
    exact ha
  · refine Ends.ok ?_
    rintro _ ⟨⟩

theorem only_required {missing : ShapeFault} {read : Json → Except ShapeError α}
    (h : ∀ j, j.Readable → Only (read j) P) : Only (required members key missing read) P := by
  rw [required]
  split
  · rename_i j hj
    exact only_under (h j (hm _ (mem_of_findEntry hj)))
  · trivial

theorem only_mapM {read : String → Json → Except ShapeError α}
    (h : ∀ k j, j.Readable → Only (read k j) P) :
    Only (members.mapM fun e => under e.1 (read e.1 e.2)) fun as => ∀ a ∈ as, P a :=
  Ends.mapM fun e he => only_under (h e.1 e.2 (hm e he))

end

theorem only_eachMember {α : Type} {P : α → Prop} {read : String → Json → Except ShapeError α}
    (h : ∀ k j, j.Readable → Only (read k j) P) {j : Json} (hj : j.Readable) :
    Only (eachMember read j) fun as => ∀ a ∈ as, P a :=
  Ends.bind (only_membersOf hj) fun _ hm => only_mapM hm.2 h

theorem only_eachItem {α : Type} {P : α → Prop} {read : Json → Except ShapeError α}
    (h : ∀ j, j.Readable → Only (read j) P) {j : Json} (hj : j.Readable) :
    Only (eachItem read j) fun as => ∀ a ∈ as, P a := by
  cases j with
  | array items =>
    refine Ends.mapM fun x hx => only_under (h x.1 ?_)
    exact readableItems_iff.1 hj x.1 (List.fst_mem_of_mem_zipIdx hx)
  | _ => trivial

theorem only_pathOf (j : Json) : Only (pathOf j) Path.Spelled :=
  Ends.map ((only_true _).imp fun text _ => Path.spelled_ofText text)

theorem only_pathsOf {j : Json} (hj : j.Readable) :
    Only (pathsOf j) fun ps => ∀ p ∈ ps, p.Spelled :=
  only_eachItem (fun j _ => only_pathOf j) hj

theorem only_nameIn {members : List (String × Json)} (hm : ∀ e ∈ members, e.2.Readable)
    (tag : String) : Only (nameIn members tag) Path.Spelled :=
  only_required hm fun j _ => only_pathOf j

/-! ## Annotations -/

/-- Things that bear the keys of the members they are read from are told apart by them. -/
theorem only_eachMember_nodup {α : Type} {read : String → Json → Except ShapeError α}
    {key : α → String} (h : ∀ k j, Only (read k j) fun a => key a = k) {j : Json}
    (hj : j.Readable) : Only (eachMember read j) fun as => (as.map key).Nodup := by
  have hkeys (members : List (String × Json)) :
      Only (members.mapM fun e => under e.1 (read e.1 e.2)) fun as =>
        as.map key = members.map Prod.fst := by
    induction members with
    | nil => exact Ends.ok rfl
    | cons e members ih =>
      rw [List.mapM_cons]
      refine Ends.bind (only_under (h e.1 e.2)) fun a ha => Ends.bind ih fun as has => Ends.pure ?_
      rw [List.map_cons, List.map_cons, ha, has]
  exact Ends.bind (only_membersOf hj) fun members hm =>
    (hkeys members).imp fun as has => has ▸ hm.1

/-- No key comes twice. -/
def DistinctKeys (annotations : List Annotation) : Prop := (annotations.map Annotation.key).Nodup

theorem only_annotationsOf {j : Json} (hj : j.Readable) : Only (annotationsOf j) DistinctKeys :=
  only_eachMember_nodup (fun _ _ => Ends.bind (only_true _) fun _ _ => Ends.pure rfl) hj

theorem only_annotationsIn {members : List (String × Json)} (hm : ∀ e ∈ members, e.2.Readable) :
    Only (annotationsIn members) DistinctKeys := by
  refine Ends.bind (only_optional hm fun j hj => only_annotationsOf hj) fun found hfound => ?_
  cases found with
  | none => exact Ends.pure List.nodup_nil
  | some annotations => exact Ends.pure (hfound annotations rfl)

theorem only_namespaceAnnotations {members : List (String × Json)}
    (hm : ∀ e ∈ members, e.2.Readable) : Only (namespaceAnnotations members) DistinctKeys := by
  refine Ends.foldlM List.nodup_nil fun found hfound e he => only_under ?_
  split
  · exact only_annotationsOf (hm e he)
  · split
    · exact Ends.ok hfound
    · trivial

/-! ## Types -/

/-- An attribute as it is read. -/
structure ReadAttribute (P : TypeExpr → Prop) (a : Attribute TypeExpr) : Prop where
  type : P a.type
  annotations : DistinctKeys a.annotations
  comments : a.comments = {}

/-- Reading gives types of which `P` holds, if `P` holds of their parts. -/
structure GivenByReading (P : TypeExpr → Prop) : Prop where
  path : ∀ p, p.Spelled → P (.path p)
  entity : ∀ p, p.Spelled → P (.entity p)
  set : ∀ element, P element → P (.set element)
  record : ∀ attributes, (∀ a ∈ attributes, ReadAttribute P a) →
    (attributes.map Attribute.name).Nodup → P (.record ⟨attributes, {}⟩)

/-- The attributes of a record as they are read. -/
def ReadAttributes (P : TypeExpr → Prop) (attributes : List (Attribute TypeExpr)) : Prop :=
  (∀ a ∈ attributes, ReadAttribute P a) ∧ (attributes.map Attribute.name).Nodup

namespace GivenByReading

variable {P : TypeExpr → Prop}

mutual

/-- Whatever is read as a type, `P` holds of it. -/
theorem only_typeOf (hP : GivenByReading P) : (j : Json) → j.Readable → Only (typeOf j) P
  | .object members, h => by
    have hm := readableMembers_iff.1 h.2
    rw [typeOf]
    refine Ends.bind (only_true _) fun tag _ => ?_
    split
    · exact Ends.pure (hP.path _ (Path.spelled_ofText _))
    · exact Ends.pure (hP.path _ (Path.spelled_ofText _))
    · exact Ends.pure (hP.path _ (Path.spelled_ofText _))
    · exact Ends.pure (hP.path _ (Path.spelled_ofText _))
    · exact Ends.map ((only_nameIn hm _).imp fun p _ => hP.path _ (Path.spelled_ofText _))
    · exact Ends.map ((only_nameIn hm _).imp hP.entity)
    · exact Ends.map ((only_nameIn hm _).imp hP.path)
    · exact Ends.map ((only_elementOf hP members h.2).imp hP.set)
    · refine Ends.map ((only_attributesIn hP members h.2).imp fun attributes ⟨hall, hnodup⟩ => ?_)
      exact hP.record attributes hall hnodup
    · exact Ends.pure (hP.path _ (Path.spelled_ofText _))
  | .null, _ => trivial
  | .bool _, _ => trivial
  | .number _, _ => trivial
  | .string _, _ => trivial
  | .array _, _ => trivial

theorem only_elementOf (hP : GivenByReading P) : (members : List (String × Json)) →
    ReadableMembers members → Only (elementOf members) P
  | [], _ => trivial
  | (_, j) :: rest, ⟨hj, hrest⟩ => by
    rw [elementOf]
    split
    · exact only_under (only_typeOf hP j hj)
    · exact only_elementOf hP rest hrest

theorem only_attributesIn (hP : GivenByReading P) : (members : List (String × Json)) →
    ReadableMembers members → Only (attributesIn members) (ReadAttributes P)
  | [], _ => Ends.ok ⟨nofun, List.nodup_nil⟩
  | (_, j) :: rest, ⟨hj, hrest⟩ => by
    rw [attributesIn]
    split
    · exact only_under (only_attributesOf hP j hj)
    · exact only_attributesIn hP rest hrest

theorem only_attributesOf (hP : GivenByReading P) : (j : Json) → j.Readable →
    Only (attributesOf j) (ReadAttributes P)
  | .object members, h => by
    rw [attributesOf]
    refine (only_attributeList hP members h.2).imp fun as ⟨has, hnames⟩ => ⟨has, ?_⟩
    rw [hnames]
    exact h.1.nodup_keys
  | .null, _ => trivial
  | .bool _, _ => trivial
  | .number _, _ => trivial
  | .string _, _ => trivial
  | .array _, _ => trivial

theorem only_attributeList (hP : GivenByReading P) : (members : List (String × Json)) →
    ReadableMembers members → Only (attributeList members) fun as =>
      (∀ a ∈ as, ReadAttribute P a) ∧ as.map Attribute.name = members.map Prod.fst
  | [], _ => Ends.ok ⟨nofun, rfl⟩
  | (name, j) :: rest, ⟨hj, hrest⟩ => by
    have hfirst : Only (under name (attributeOf name j)) fun a =>
        a.name = name ∧ ReadAttribute P a := by
      refine only_under (Ends.bind (only_membersOf hj) fun members ⟨_, hm⟩ => ?_)
      refine Ends.bind (only_true _) fun _ _ => Ends.bind (only_typeOf hP j hj) fun type ht => ?_
      exact Ends.bind (only_annotationsIn hm) fun annotations ha => Ends.pure ⟨rfl, ht, ha, rfl⟩
    rw [attributeList]
    refine Ends.bind hfirst fun a ⟨hname, ha⟩ => ?_
    refine Ends.bind (only_attributeList hP rest hrest) fun as ⟨has, hnames⟩ => Ends.pure ?_
    exact ⟨List.forall_mem_cons.2 ⟨ha, has⟩, by rw [List.map_cons, List.map_cons, hname, hnames]⟩

end

theorem only_shapeOf (hP : GivenByReading P) {j : Json} (hj : j.Readable) :
    Only (shapeOf j) fun r => P (.record r) := by
  refine Ends.bind (hP.only_typeOf j hj) fun t ht => ?_
  cases t with
  | record r => exact Ends.pure ht
  | _ => trivial

end GivenByReading

/-! ## Declarations -/

structure ReadAppliesTo (P : TypeExpr → Prop) (a : AppliesTo) : Prop where
  principals : ∀ ps ∈ a.principals, ∀ p ∈ ps, p.Spelled
  resources : ∀ rs ∈ a.resources, ∀ r ∈ rs, r.Spelled
  context : ∀ t ∈ a.context, P t
  comments : a.comments = {}

/-- A declaration as it is read, with types of which `P` holds. -/
inductive ReadDecl (P : TypeExpr → Prop) : Decl → Prop
  | commonType {name : String} {type : TypeExpr} {annotations : List Annotation}
      (htype : P type) (hkeys : DistinctKeys annotations) :
    ReadDecl P (.commonType { name, type, annotations })
  | entity {name : String} {parents : List Path} {shape : Option (Record TypeExpr)}
      {tags : Option TypeExpr} {annotations : List Annotation}
      (hparents : ∀ p ∈ parents, p.Spelled) (hshape : ∀ r ∈ shape, P (.record r))
      (htags : ∀ t ∈ tags, P t) (hkeys : DistinctKeys annotations) :
    ReadDecl P (.entity { names := [name], parents, shape, tags, annotations })
  | enum {name : String} {values : List String} {annotations : List Annotation}
      (hvalues : values ≠ []) (hkeys : DistinctKeys annotations) :
    ReadDecl P (.enum { names := [name], values, annotations })
  | action {name : String} {parents : List ActionRef} {appliesTo : Option AppliesTo}
      {annotations : List Annotation} (hparents : ∀ r ∈ parents, ∀ p ∈ r.type, p.Spelled)
      (happliesTo : ∀ a ∈ appliesTo, ReadAppliesTo P a) (hkeys : DistinctKeys annotations) :
    ReadDecl P (.action { names := [name], parents, appliesTo, annotations })

/-- Of an optional list, what holds of every element. -/
theorem forall_mem_getD {α : Type} {Q : α → Prop} {found : Option (List α)}
    (h : ∀ as ∈ found, ∀ a ∈ as, Q a) : ∀ a ∈ found.getD [], Q a := by
  cases found with
  | none => exact List.forall_mem_nil _
  | some as => exact h as rfl

theorem only_enumValuesOf (j : Json) : Only (enumValuesOf j) fun vs => vs ≠ [] := by
  refine Ends.bind (only_true _) fun values _ => ?_
  split
  · trivial
  · rename_i h
    exact Ends.pure fun hnil => h (List.isEmpty_iff.2 hnil)

theorem only_actionRefOf {j : Json} (hj : j.Readable) :
    Only (actionRefOf j) fun r => ∀ p ∈ r.type, p.Spelled := by
  refine Ends.bind (only_membersOf hj) fun members ⟨_, hm⟩ => ?_
  refine Ends.bind (only_true _) fun id _ => ?_
  exact Ends.bind (only_optional hm fun j _ => only_pathOf j) fun type htype => Ends.pure htype

section

variable {P : TypeExpr → Prop} (hP : GivenByReading P) (name : String) {j : Json} (hj : j.Readable)

include hP hj

theorem only_commonTypeOf : Only (commonTypeOf name j) (ReadDecl P) := by
  refine Ends.bind (only_membersOf hj) fun members ⟨_, hm⟩ => ?_
  refine Ends.bind (only_annotationsIn hm) fun annotations ha => ?_
  exact Ends.bind (hP.only_typeOf j hj) fun type ht => Ends.pure (.commonType ht ha)

theorem only_entityTypeOf : Only (entityTypeOf name j) (ReadDecl P) := by
  refine Ends.bind (only_membersOf hj) fun members ⟨_, hm⟩ => ?_
  refine Ends.bind (only_annotationsIn hm) fun annotations ha => ?_
  split
  · rename_i henum
    obtain ⟨values, hvalues⟩ := Option.isSome_iff_exists.1 henum
    have hread : Only (optional members "enum" enumValuesOf) fun found => found.getD [] ≠ [] := by
      rw [optional, hvalues]
      exact Ends.map (only_under (only_enumValuesOf values))
    refine Ends.bind (only_true _) fun _ _ => Ends.bind hread fun found hfound => ?_
    exact Ends.pure (.enum hfound ha)
  · refine Ends.bind (only_true _) fun _ _ => ?_
    refine Ends.bind (only_optional hm fun j hj => only_pathsOf hj) fun parents hparents => ?_
    refine Ends.bind (only_optional hm fun j hj => hP.only_shapeOf hj) fun shape hshape => ?_
    refine Ends.bind (only_optional hm hP.only_typeOf) fun tags htags => ?_
    exact Ends.pure (.entity (forall_mem_getD hparents) hshape htags ha)

omit name in
theorem only_appliesToOf : Only (appliesToOf j) (ReadAppliesTo P) := by
  refine Ends.bind (only_membersOf hj) fun members ⟨_, hm⟩ => ?_
  refine Ends.bind (only_true _) fun _ _ => ?_
  refine Ends.bind (only_optional hm fun j hj => only_pathsOf hj) fun principals hprincipals => ?_
  refine Ends.bind (only_optional hm fun j hj => only_pathsOf hj) fun resources hresources => ?_
  refine Ends.bind (only_optional hm hP.only_typeOf) fun context hcontext => ?_
  exact Ends.pure ⟨hprincipals, hresources, hcontext, rfl⟩

theorem only_actionOf : Only (actionOf name j) (ReadDecl P) := by
  refine Ends.bind (only_membersOf hj) fun members ⟨_, hm⟩ => ?_
  refine Ends.bind (only_true _) fun _ _ => ?_
  refine Ends.bind (only_annotationsIn hm) fun annotations ha => ?_
  refine Ends.bind (only_optional hm fun j hj => only_eachItem (fun j => only_actionRefOf) hj)
    fun parents hparents => ?_
  refine Ends.bind (only_optional hm fun j hj => only_appliesToOf hP hj) fun appliesTo happliesTo =>
    ?_
  exact Ends.pure (.action (forall_mem_getD hparents) happliesTo ha)

end

/-! ## Schemas -/

/-- An item as it is read. A block is never that of the root namespace. -/
inductive ReadItem (P : TypeExpr → Prop) : Item → Prop
  | block {name : String} {decls : List Decl} {annotations : List Annotation} (hname : name ≠ "")
      (hdecls : ∀ d ∈ decls, ReadDecl P d) (hkeys : DistinctKeys annotations) :
    ReadItem P (.block { path := Path.ofText name, decls, annotations })
  | decl {d : Decl} (hd : ReadDecl P d) : ReadItem P (.decl d)

section

variable {P : TypeExpr → Prop} (hP : GivenByReading P)

theorem only_declsUnder {members : List (String × Json)} (hm : ∀ e ∈ members, e.2.Readable)
    {read : String → Json → Except ShapeError Decl}
    (h : ∀ k j, j.Readable → Only (read k j) (ReadDecl P)) (key : String) :
    Only (declsUnder members key read) fun ds => ∀ d ∈ ds, ReadDecl P d := by
  refine Ends.bind (only_optional hm fun j hj => only_eachMember h hj) fun decls hdecls => ?_
  exact Ends.pure (forall_mem_getD hdecls)

include hP

theorem only_namespaceOf (name : String) {j : Json} (hj : j.Readable) :
    Only (namespaceOf name j) fun items => ∀ i ∈ items, ReadItem P i := by
  refine Ends.bind (only_membersOf hj) fun members ⟨_, hm⟩ => ?_
  refine Ends.bind (only_namespaceAnnotations hm) fun annotations ha => ?_
  refine Ends.bind (only_declsUnder hm (fun k j hj => only_commonTypeOf hP k hj) _)
    fun commonTypes hcommon => ?_
  refine Ends.bind (only_declsUnder hm (fun k j hj => only_entityTypeOf hP k hj) _)
    fun entityTypes hentity => ?_
  refine Ends.bind (only_declsUnder hm (fun k j hj => only_actionOf hP k hj) _)
    fun actions haction => ?_
  have hdecls : ∀ d ∈ commonTypes ++ entityTypes ++ actions, ReadDecl P d :=
    List.forall_mem_append.2 ⟨List.forall_mem_append.2 ⟨hcommon, hentity⟩, haction⟩
  dsimp only
  split
  · rename_i hname
    exact Ends.pure (List.forall_mem_singleton.2 (.block hname hdecls ha))
  · split
    · exact Ends.pure (List.forall_mem_map.2 fun d hd => .decl (hdecls d hd))
    · trivial

end

end Document

namespace Schema

/-- A schema as it is read from a document, with types of which `P` holds. -/
structure Read (P : TypeExpr → Prop) (s : Schema) : Prop where
  items : ∀ i ∈ s.items, Document.ReadItem P i
  remaining : s.remaining = []

variable {P : TypeExpr → Prop} (hP : Document.GivenByReading P)

include hP

theorem only_ofDocument {j : Json} (hj : j.Readable) : Document.Only (ofDocument j) (Read P) := by
  refine Ends.bind (Document.only_eachMember (fun k j hj => Document.only_namespaceOf hP k hj) hj)
    fun items hitems => Ends.pure ⟨fun i hi => ?_, rfl⟩
  obtain ⟨is, his, hi⟩ := List.mem_flatten.1 hi
  exact hitems is his i hi

theorem read_of_ofDocumentText {text : String} {s : Schema} (h : ofDocumentText text = .ok s) :
    s.Read P := by
  unfold ofDocumentText at h
  split at h
  · cases h
  · rename_i j hj
    have hs := only_ofDocument hP (Json.readable_of_read? hj)
    cases hof : ofDocument j with
    | ok s' =>
      rw [hof] at h hs
      cases h
      exact hs
    | error e =>
      rw [hof] at h
      cases h

end Schema

end CedarSchema
