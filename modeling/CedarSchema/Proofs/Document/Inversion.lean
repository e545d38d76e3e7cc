import CedarSchema.Proofs.Document.Entries
import CedarSchema.Proofs.Document.Reading

/-
  What a successful reading says of the document. A type that is read is what its tag and the
  members beside it say (`ReadAs`), and every entry of a document that is read has become a
  declaration of its namespace (`ReadsEntries`). No member that could hold a type is skipped.
-/

namespace CedarSchema

namespace Document

/-! ## Members -/

/-- What is read is what the reading gives. -/
theorem only_eq {α : Type} (r : Except ShapeError α) : Only r (r = .ok ·) := by
  cases r with
  | ok a => exact rfl
  | error e => trivial

section

variable {α : Type} {members : List (String × Json)} {key : String}

theorem only_under_eq (r : Except ShapeError α) : Only (under key r) (r = .ok ·) :=
  only_under (only_eq r)

theorem only_members (j : Json) : Only (membersOf j) (j.members = ·) := by
  cases j with
  | object members => exact rfl
  | _ => trivial

theorem only_optional_at {read : Json → Except ShapeError α} :
    Only (optional members key read) fun found =>
      ∀ j, Json.member? members key = some j → ∃ a, found = some a ∧ read j = .ok a := by
  rw [optional]
  split
  · rename_i j hj
    refine Ends.map ((only_under_eq (read j)).imp fun a ha j' hj' => ?_)
    cases hj.symm.trans hj'
    exact ⟨a, rfl, ha⟩
  · rename_i hnone
    refine Ends.ok fun j hj => ?_
    cases hnone.symm.trans hj

theorem only_required_at {missing : ShapeFault} {read : Json → Except ShapeError α} :
    Only (required members key missing read) fun a =>
      ∃ j, Json.member? members key = some j ∧ read j = .ok a := by
  rw [required]
  split
  · rename_i j hj
    exact (only_under_eq (read j)).imp fun a ha => ⟨j, hj, ha⟩
  · trivial

theorem only_allowOnly (known : List String) : Only (allowOnly known members) fun _ =>
    ∀ key, key ∉ known → Json.member? members key = none := by
  rw [allowOnly]
  split
  · trivial
  · rename_i hnone
    refine Ends.ok fun key hkey => ?_
    rw [Option.eq_none_iff_forall_ne_some]
    intro j hj
    have hknown := List.find?_eq_none.1 hnone (key, j) (mem_of_findEntry hj)
    exact hknown (by simpa using hkey)

theorem only_mapM_at {read : String → Json → Except ShapeError α} :
    Only (members.mapM fun e => under e.1 (read e.1 e.2)) fun as =>
      ∀ e ∈ members, ∃ a ∈ as, read e.1 e.2 = .ok a := by
  induction members with
  | nil => exact Ends.ok nofun
  | cons e members ih =>
    rw [List.mapM_cons]
    refine Ends.bind (only_under_eq (read e.1 e.2)) fun a ha => Ends.bind ih fun as has =>
      Ends.pure (List.forall_mem_cons.2 ⟨⟨a, List.mem_cons_self, ha⟩, fun e he => ?_⟩)
    obtain ⟨a, ha, heq⟩ := has e he
    exact ⟨a, List.mem_cons_of_mem _ ha, heq⟩

end

theorem only_eachMember_at {α : Type} {read : String → Json → Except ShapeError α} (j : Json) :
    Only (eachMember read j) fun as =>
      ∀ name entry, j.at? name = some entry → ∃ a ∈ as, read name entry = .ok a := by
  refine Ends.bind (only_members j) ?_
  rintro members rfl
  exact only_mapM_at.imp fun as has name entry hentry =>
    has (name, entry) (mem_of_findEntry hentry)

theorem only_textOf (j : Json) : Only (textOf j) fun text => j = .string text := by
  cases j with
  | string s => exact rfl
  | _ => trivial

/-! ## Types -/

/-- The tags that say what kind of type an object stands for. Any other tag is itself a name. -/
def typeTags : List String :=
  ["Long", "String", "Boolean", "Bool", "Extension", "Entity", "EntityOrCommon", "Set", "Record"]

/-- The type that is read from an object, by its tag. -/
inductive ReadAs (j : Json) : TypeExpr → Prop
  | long (htag : j.textAt? "type" = some "Long") : ReadAs j (builtinRef "Long")
  | string (htag : j.textAt? "type" = some "String") : ReadAs j (builtinRef "String")
  | boolean (htag : j.textAt? "type" = some "Boolean") : ReadAs j (builtinRef "Bool")
  | bool (htag : j.textAt? "type" = some "Bool") : ReadAs j (builtinRef "Bool")
  | extension {n : String} (htag : j.textAt? "type" = some "Extension")
      (hname : j.textAt? "name" = some n) : ReadAs j (builtinRef n)
  | entity {n : String} (htag : j.textAt? "type" = some "Entity")
      (hname : j.textAt? "name" = some n) : ReadAs j (.entity (Path.ofText n))
  | entityOrCommon {n : String} (htag : j.textAt? "type" = some "EntityOrCommon")
      (hname : j.textAt? "name" = some n) : ReadAs j (.path (Path.ofText n))
  | set {e : Json} {element : TypeExpr} (htag : j.textAt? "type" = some "Set")
      (he : j.at? "element" = some e) (helement : typeOf e = .ok element) :
    ReadAs j (.set element)
  | record {attributes : List (Attribute TypeExpr)} (htag : j.textAt? "type" = some "Record")
      (hattributes : ∀ doc, j.at? "attributes" = some doc → attributesOf doc = .ok attributes) :
    ReadAs j (.record ⟨attributes, {}⟩)
  | reference {tag : String} (htag : j.textAt? "type" = some tag) (hother : tag ∉ typeTags) :
    ReadAs j (.path (Path.ofText tag))

namespace ReadAs

variable {j : Json} {type : TypeExpr}

theorem of_set (h : ReadAs j type) (htag : j.textAt? "type" = some "Set") {e : Json}
    (he : j.at? "element" = some e) : ∃ element, type = .set element ∧ typeOf e = .ok element := by
  cases h with
  | set _ he' helement =>
    cases he.symm.trans he'
    exact ⟨_, rfl, helement⟩
  | reference htag' hother =>
    cases htag.symm.trans htag'
    exact absurd (by decide) hother
  | _ htag' => exact absurd (htag.symm.trans htag') (by decide)

theorem of_record (h : ReadAs j type) (htag : j.textAt? "type" = some "Record") {doc : Json}
    (hdoc : j.at? "attributes" = some doc) :
    ∃ attributes, type = .record ⟨attributes, {}⟩ ∧ attributesOf doc = .ok attributes := by
  cases h with
  | record _ hattributes => exact ⟨_, rfl, hattributes doc hdoc⟩
  | reference htag' hother =>
    cases htag.symm.trans htag'
    exact absurd (by decide) hother
  | _ htag' => exact absurd (htag.symm.trans htag') (by decide)

end ReadAs

section

variable {members : List (String × Json)}

theorem only_required_textOf {key : String} {missing : ShapeFault} :
    Only (required members key missing textOf) fun text =>
      (Json.object members).textAt? key = some text := by
  refine only_required_at.imp fun text ⟨j, hj, htext⟩ => ?_
  cases (only_textOf j).of_ok htext
  rw [Json.textAt?, Json.at?, Json.members, hj]

theorem only_nameIn_at (tag : String) : Only (nameIn members tag) fun p =>
    ∃ n, (Json.object members).textAt? "name" = some n ∧ p = Path.ofText n := by
  refine only_required_at.imp fun p ⟨j, hj, hp⟩ => ?_
  have hpath : Only (pathOf j) fun p => ∃ n, j = .string n ∧ p = Path.ofText n :=
    Ends.map ((only_textOf j).imp fun n hn => ⟨n, hn, rfl⟩)
  obtain ⟨n, rfl, rfl⟩ := hpath.of_ok hp
  exact ⟨n, by rw [Json.textAt?, Json.at?, Json.members, hj], rfl⟩

theorem only_elementOf_at : Only (elementOf members) fun element =>
    ∃ e, (Json.object members).at? "element" = some e ∧ typeOf e = .ok element := by
  rw [elementOf_eq_required]
  exact only_required_at

theorem only_attributesIn_at : Only (attributesIn members) fun attributes =>
    ∀ doc, (Json.object members).at? "attributes" = some doc →
      attributesOf doc = .ok attributes := by
  rw [attributesIn_eq_optional]
  refine Ends.map (only_optional_at.imp fun found hfound doc hdoc => ?_)
  obtain ⟨attributes, rfl, hattributes⟩ := hfound doc hdoc
  exact hattributes

end

/-- A type is read as its tag says. -/
theorem only_readAs (j : Json) : Only (typeOf j) (ReadAs j) := by
  cases j with
  | object members =>
    rw [typeOf]
    refine Ends.bind only_required_textOf fun tag htag => ?_
    split
    · exact Ends.pure (.long htag)
    · exact Ends.pure (.string htag)
    · exact Ends.pure (.boolean htag)
    · exact Ends.pure (.bool htag)
    · refine Ends.map ((only_nameIn_at _).imp ?_)
      rintro _ ⟨n, hname, rfl⟩
      rw [Path.text_ofText]
      exact .extension htag hname
    · refine Ends.map ((only_nameIn_at _).imp ?_)
      rintro _ ⟨n, hname, rfl⟩
      exact .entity htag hname
    · refine Ends.map ((only_nameIn_at _).imp ?_)
      rintro _ ⟨n, hname, rfl⟩
      exact .entityOrCommon htag hname
    · refine Ends.map (only_elementOf_at.imp ?_)
      rintro _ ⟨e, he, helement⟩
      exact .set htag he helement
    · exact Ends.map (only_attributesIn_at.imp fun _ => .record htag)
    · refine Ends.pure (.reference htag ?_)
      simp only [typeTags, List.mem_cons, List.not_mem_nil]
      tauto
  | _ => trivial

/-- Each attribute of a record is read under its own name. -/
theorem only_attributesOf_at (j : Json) : Only (attributesOf j) fun attributes =>
    ∀ name a, j.at? name = some a →
      ∃ x ∈ attributes, x.name = name ∧ typeOf a = .ok x.type := by
  cases j with
  | object members =>
    rw [attributesOf, attributeList_eq]
    refine only_mapM_at.imp fun attributes hattributes name a ha => ?_
    obtain ⟨x, hx, hread⟩ := hattributes (name, a) (mem_of_findEntry ha)
    have hattribute : Only (attributeOf name a) fun x =>
        x.name = name ∧ typeOf a = .ok x.type := by
      refine Ends.bind (only_true _) fun _ _ => Ends.bind (only_true _) fun _ _ => ?_
      refine Ends.bind (only_eq _) fun type htype => Ends.bind (only_true _) fun _ _ => ?_
      exact Ends.pure ⟨rfl, htype⟩
    exact ⟨x, hx, hattribute.of_ok hread⟩
  | _ => trivial

/-! ## Entries -/

theorem only_commonTypeOf_at (name : String) (j : Json) : Only (commonTypeOf name j) fun d =>
    ∃ c, d = .commonType c ∧ c.name = name ∧ typeOf j = .ok c.type := by
  refine Ends.bind (only_true _) fun _ _ => Ends.bind (only_true _) fun _ _ => ?_
  exact Ends.bind (only_eq _) fun type htype => Ends.pure ⟨_, rfl, rfl, htype⟩

theorem only_shapeOf_at (j : Json) : Only (shapeOf j) fun r => typeOf j = .ok (.record r) := by
  refine Ends.bind (only_eq _) fun type htype => ?_
  cases type with
  | record r => exact Ends.pure htype
  | _ => trivial

/-- An entity type that is read from an entry. Its shape and its tags are those of the entry. -/
structure EntityRead (name : String) (entry : Json) (e : EntityDecl) : Prop where
  names : e.names = [name]
  shape : ∀ a, entry.at? "shape" = some a → ∃ r, e.shape = some r ∧ typeOf a = .ok (.record r)
  tags : ∀ a, entry.at? "tags" = some a → ∃ t, e.tags = some t ∧ typeOf a = .ok t

/-- Where there are types in an entry, it is read as an entity type that has them. -/
theorem only_entityTypeOf_at (name : String) (entry : Json) :
    Only (entityTypeOf name entry) fun d =>
      ((entry.at? "shape").isSome ∨ (entry.at? "tags").isSome) →
        ∃ e, d = .entity e ∧ EntityRead name entry e := by
  refine Ends.bind (only_members entry) ?_
  rintro members rfl
  refine Ends.bind (only_true _) fun _ _ => ?_
  split
  · refine Ends.bind (only_allowOnly _) fun _ hallowed => Ends.bind (only_true _) fun _ _ => ?_
    have hshape : entry.at? "shape" = none := hallowed "shape" (by decide)
    have htags : entry.at? "tags" = none := hallowed "tags" (by decide)
    refine Ends.pure fun h => ?_
    rw [hshape, htags] at h
    exact h.elim nofun nofun
  · refine Ends.bind (only_true _) fun _ _ => Ends.bind (only_true _) fun _ _ => ?_
    refine Ends.bind only_optional_at fun shape hshape => ?_
    refine Ends.bind only_optional_at fun tags htags => Ends.pure fun _ => ?_
    refine ⟨_, rfl, rfl, fun a ha => ?_, htags⟩
    obtain ⟨r, hr, hread⟩ := hshape a ha
    exact ⟨r, hr, (only_shapeOf_at a).of_ok hread⟩

theorem only_appliesToOf_at (j : Json) : Only (appliesToOf j) fun x =>
    ∀ a, j.at? "context" = some a → ∃ t, x.context = some t ∧ typeOf a = .ok t := by
  refine Ends.bind (only_members j) ?_
  rintro members rfl
  refine Ends.bind (only_true _) fun _ _ => Ends.bind (only_true _) fun _ _ => ?_
  refine Ends.bind (only_true _) fun _ _ => ?_
  exact Ends.bind only_optional_at fun context hcontext => Ends.pure hcontext

/-- An action that is read from an entry. Its context is that of the entry. -/
structure ActionRead (name : String) (entry : Json) (d : ActionDecl) : Prop where
  names : d.names = [name]
  context : ∀ a, (entry.at? "appliesTo").bind (·.at? "context") = some a →
    ∃ x t, d.appliesTo = some x ∧ x.context = some t ∧ typeOf a = .ok t

theorem only_actionOf_at (name : String) (entry : Json) : Only (actionOf name entry) fun d =>
    ∃ e, d = .action e ∧ ActionRead name entry e := by
  refine Ends.bind (only_members entry) ?_
  rintro members rfl
  refine Ends.bind (only_true _) fun _ _ => Ends.bind (only_true _) fun _ _ => ?_
  refine Ends.bind (only_true _) fun _ _ => Ends.bind only_optional_at fun x hx => ?_
  refine Ends.pure ⟨_, rfl, rfl, fun a ha => ?_⟩
  obtain ⟨doc, hdoc, ha⟩ := Option.bind_eq_some_iff.1 ha
  obtain ⟨applies, happlies, hread⟩ := hx doc hdoc
  obtain ⟨t, ht, htype⟩ := (only_appliesToOf_at doc).of_ok hread a ha
  exact ⟨applies, t, happlies, ht, htype⟩

/-! ## Documents -/

section

variable {key : String} {read : String → Json → Except ShapeError Decl}

/-- Each entry that one namespace has under the key is read as one of the declarations. -/
def ReadsMembers (key : String) (read : String → Json → Except ShapeError Decl) (doc : Json)
    (decls : List Decl) : Prop :=
  ∀ name entry, (doc.at? key).bind (·.at? name) = some entry →
    ∃ d ∈ decls, read name entry = .ok d

theorem ReadsMembers.mono {doc : Json} {decls decls' : List Decl}
    (h : ReadsMembers key read doc decls) (hsub : decls ⊆ decls') :
    ReadsMembers key read doc decls' := by
  intro name entry hentry
  obtain ⟨d, hd, hread⟩ := h name entry hentry
  exact ⟨d, hsub hd, hread⟩

theorem only_declsUnder_at (doc : Json) :
    Only (declsUnder doc.members key read) (ReadsMembers key read doc) := by
  refine Ends.bind only_optional_at fun found hfound => Ends.pure fun name entry hentry => ?_
  obtain ⟨entries, hentries, hentry⟩ := Option.bind_eq_some_iff.1 hentry
  obtain ⟨decls, rfl, hread⟩ := hfound entries hentries
  exact (only_eachMember_at entries).of_ok hread name entry hentry

/-- Each entry that a document has under the key is read as a declaration of its namespace. -/
def ReadsEntries (key : String) (read : String → Json → Except ShapeError Decl) (j : Json)
    (s : Schema) : Prop :=
  ∀ ns name entry, entryAt key j ns name = some entry →
    ∃ d, read name entry = .ok d ∧ ⟨ns, d⟩ ∈ s.declarations

end

/-- The items are those of one namespace, and they declare all of its entries. -/
structure NamespaceRead (ns : String) (doc : Json) (items : List Item) : Prop where
  namespaceName : ∀ i ∈ items, i.namespaceName = ns
  commonTypes : ReadsMembers "commonTypes" commonTypeOf doc (items.flatMap Item.decls)
  entityTypes : ReadsMembers "entityTypes" entityTypeOf doc (items.flatMap Item.decls)
  actions : ReadsMembers "actions" actionOf doc (items.flatMap Item.decls)

theorem only_namespaceOf_at (ns : String) (doc : Json) :
    Only (namespaceOf ns doc) (NamespaceRead ns doc) := by
  refine Ends.bind (only_members doc) ?_
  rintro members rfl
  refine Ends.bind (only_true _) fun annotations _ => ?_
  refine Ends.bind (only_declsUnder_at doc) fun commonTypes hcommon => ?_
  refine Ends.bind (only_declsUnder_at doc) fun entityTypes hentity => ?_
  refine Ends.bind (only_declsUnder_at doc) fun actions haction => ?_
  have hread {items : List Item} (hns : ∀ i ∈ items, i.namespaceName = ns)
      (hdecls : items.flatMap Item.decls = commonTypes ++ entityTypes ++ actions) :
      NamespaceRead ns doc items := by
    refine ⟨hns, hcommon.mono ?_, hentity.mono ?_, haction.mono ?_⟩ <;> simp [hdecls]
  dsimp only
  split
  · refine Ends.pure (hread (List.forall_mem_singleton.2 (Path.text_ofText ns)) ?_)
    simp [Item.decls]
  · rename_i hroot
    split
    · refine Ends.pure (hread (List.forall_mem_map.2 fun _ _ => ?_) ?_)
      · exact (not_not.1 hroot).symm
      · simp [List.flatMap_map, Item.decls]
    · trivial

/-- A document is read as a schema that declares all its entries. -/
structure EntriesRead (j : Json) (s : Schema) : Prop where
  commonTypes : ReadsEntries "commonTypes" commonTypeOf j s
  entityTypes : ReadsEntries "entityTypes" entityTypeOf j s
  actions : ReadsEntries "actions" actionOf j s

theorem only_entries (j : Json) : Only (Schema.ofDocument j) (EntriesRead j) := by
  refine Ends.bind (only_eachMember_at j) fun itemss hitemss => Ends.pure ?_
  have hentries {key : String} {read : String → Json → Except ShapeError Decl}
      (h : ∀ ns doc items, NamespaceRead ns doc items →
        ReadsMembers key read doc (items.flatMap Item.decls)) :
      ReadsEntries key read j { items := itemss.flatten } := by
    intro ns name entry hentry
    rw [entryAt, Option.bind_assoc] at hentry
    obtain ⟨doc, hdoc, hentry⟩ := Option.bind_eq_some_iff.1 hentry
    obtain ⟨items, hitems, hread⟩ := hitemss ns doc hdoc
    have hns := (only_namespaceOf_at ns doc).of_ok hread
    obtain ⟨d, hd, hread⟩ := h ns doc items hns name entry hentry
    obtain ⟨i, hi, hd⟩ := List.mem_flatMap.1 hd
    refine ⟨d, hread, Schema.mem_declarations_iff.2 ⟨i, ?_, (hns.namespaceName i hi).symm, hd⟩⟩
    exact List.mem_flatten.2 ⟨items, hitems, hi⟩
  exact ⟨hentries fun _ _ _ h => h.commonTypes, hentries fun _ _ _ h => h.entityTypes,
    hentries fun _ _ _ h => h.actions⟩

end Document

end CedarSchema
