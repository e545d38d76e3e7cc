import CedarSchema.Proofs.Document.Inversion
import CedarSchema.Proofs.Document.Reference
import CedarSchema.Proofs.Resolve.Judgement
import Mathlib

/-
  The tags of types in a document. Wherever a type stands in a document that resolves, a tag of a
  primitive, of an extension type or of an entity type means this and nothing else, whatever the
  document declares (`Schema.keepsTag_of_resolve`). A built-in type is read as a reference below the
  segment for built-in types, where no declaration is looked for, and an entity type as a reference
  that finds entity types only. Extension types and primitives share one table of names, so the tag
  of extension types with the name of a primitive means the primitive.
-/

namespace CedarSchema

open SymbolTable Document

namespace SymbolTable

variable {t : SymbolTable} {ns : String}

/-! ## References to built-in types -/

/-- A reference below the segment for built-in types finds a built-in type or nothing. -/
theorem exists_builtinType {name : String} {b : Binding}
    (h : t.lookupType ns (Path.ofText (builtinNamespace ++ "::" ++ name)) = .ok b) :
    ∃ type, builtinType name = some type ∧ b = .builtin type := by
  have hident : Text.isIdent builtinNamespace = true := by decide
  have hname : Text.join "::" (Path.ofText name).segments = name := Path.text_ofText name
  rw [Path.ofText_cons hident] at h
  rcases lookupType_cases h with ⟨-, -, type, htype, rfl⟩ | ⟨-, hhead, -⟩ | ⟨hqualified, -⟩
  · rw [List.tail_cons, hname] at htype
    exact ⟨type, htype, rfl⟩
  · exact absurd rfl hhead
  · rw [Path.isQualified, List.length_cons, decide_eq_false_iff_not] at hqualified
    exact absurd (List.length_pos_iff.2 (Path.segments_ofText_ne_nil name)) (by omega)

theorem Denotes.builtinType_eq {name : String} {type : ResolvedType}
    (h : t.Denotes ns (builtinRef name) type) : builtinType name = some type := by
  cases h with
  | builtin hp =>
    obtain ⟨_, htype, ⟨⟩⟩ := exists_builtinType hp
    exact htype
  | entityType hp => obtain ⟨_, -, ⟨⟩⟩ := exists_builtinType hp
  | commonType hp => obtain ⟨_, -, ⟨⟩⟩ := exists_builtinType hp

/-! ## Fields -/

theorem DenotesAll.exists_field {x : Attribute TypeExpr} :
    {attributes : List (Attribute TypeExpr)} → {fields : Fields} →
      t.DenotesAll ns attributes fields → x ∈ attributes →
        ∃ f, (x.name, f) ∈ fields ∧ t.Denotes ns x.type f.type
  | _, _, .nil _, hx => nomatch hx
  | _, _, .cons h hrest, hx => by
    rcases List.mem_cons.1 hx with rfl | hx
    · exact ⟨_, List.mem_cons_self, h⟩
    · obtain ⟨f, hf, hdenotes⟩ := hrest.exists_field hx
      exact ⟨f, List.mem_cons_of_mem _ hf, hdenotes⟩

/-- An attribute of a record stands for the field of its name. -/
theorem DenotesRecord.exists_field {r : Record TypeExpr} {fields : Fields}
    (h : t.DenotesRecord ns r fields) {x : Attribute TypeExpr} (hx : x ∈ r.attributes) :
    ∃ f, findEntry x.name fields = some f ∧ t.Denotes ns x.type f.type := by
  cases h with
  | mk hall hnodup =>
    obtain ⟨f, hf, hdenotes⟩ := hall.exists_field hx
    rw [← hall.map_fst] at hnodup
    exact ⟨f, (Dict.find?_ofList_iff hnodup).2 hf, hdenotes⟩

/-! ## Common types -/

/-- A declared common type expands to what its body stands for. -/
theorem Ready.exists_expand {expanded : Expanded} (h : t.Ready expanded) {name : String}
    {d : Scoped CommonTypeDecl} (hd : t.commonType? name = some d) :
    ∃ x, t.expand [] name expanded = .ok x ∧ t.Denotes d.ns d.decl.type x.1 := by
  have hexpand : Ends (t.Blames (t.BindsBodies ∧ True)) (t.expand [] name expanded)
      fun x => t.Stands name x.1 ∧ t.Sound x.2 :=
    (blames_expand [] name expanded h.sound ⟨d, hd⟩).impError
      fun _ he => (he (leads_nil name)).mono And.left
  obtain ⟨x, hx, ⟨d', hd', hdenotes⟩, -⟩ :=
    (h.needs hexpand fun _ _ => trivial).exists_ok trivial
  cases hd.symm.trans hd'
  exact ⟨x, hx, hdenotes⟩

end SymbolTable

/-! ## Places -/

/-- Where a type stands: under an entity type, an action or a common type, known by its namespace
and its name, or inside of a type that stands somewhere. -/
inductive TypePlace
  | shape (ns name : String)
  | tags (ns name : String)
  | context (ns id : String)
  | commonType (ns name : String)
  | element (p : TypePlace)
  | field (p : TypePlace) (name : String)

namespace TypePlace

/-- The namespace in which the names of a type are looked up. -/
def ns : TypePlace → String
  | shape ns _ => ns
  | tags ns _ => ns
  | context ns _ => ns
  | commonType ns _ => ns
  | element p => p.ns
  | field p _ => p.ns

/-- What stands there in a document. -/
def written (j : Json) : TypePlace → Option Json
  | shape ns name => (entryAt "entityTypes" j ns name).bind (·.at? "shape")
  | tags ns name => (entryAt "entityTypes" j ns name).bind (·.at? "tags")
  | context ns id => (entryAt "actions" j ns id).bind fun a =>
      (a.at? "appliesTo").bind (·.at? "context")
  | commonType ns name => entryAt "commonTypes" j ns name
  | element p => (p.written j).bind fun a =>
      if a.textAt? "type" = some "Set" then a.at? "element" else none
  | field p name => (p.written j).bind fun a =>
      if a.textAt? "type" = some "Record" then (a.at? "attributes").bind (·.at? name) else none

/-- What stands there in a resolved schema. Common types are in none; they are expanded. -/
def resolved (s : Schema) (r : ResolvedSchema) : TypePlace → Option ResolvedType
  | shape ns name => ((r.entity? (qualify ns name)).bind (·.shape)).map .record
  | tags ns name => (r.entity? (qualify ns name)).bind (·.tags)
  | context ns id =>
    ((r.action? (actionType ns) id).bind (·.appliesTo)).map fun a => .record a.context
  | commonType ns name =>
    match s.table.expand [] (qualify ns name) .empty with
    | .ok (type, _) => some type
    | .error _ => none
  | element p =>
    match p.resolved s r with
    | some (.set type) => some type
    | _ => none
  | field p name =>
    match p.resolved s r with
    | some (.record fields) => (findEntry name fields).map Field.type
    | _ => none

end TypePlace

namespace Schema

variable {j : Json} {s : Schema} {r : ResolvedSchema}

/-- A type that stands somewhere in a document is read there, and what it stands for is in the
resolved schema at the same place. -/
def MeansAt (s : Schema) (r : ResolvedSchema) (p : TypePlace) (a : Json) : Prop :=
  ∃ T type, typeOf a = .ok T ∧ p.resolved s r = some type ∧ s.table.Denotes p.ns T type

section

variable (hj : EntriesRead j s) (h : s.Means r)

include hj h

/-- An entity type that has types in a document, as it is declared and as it is resolved. -/
theorem exists_entity {ns name : String} {entry : Json}
    (hentry : entryAt "entityTypes" j ns name = some entry)
    (htypes : (entry.at? "shape").isSome ∨ (entry.at? "tags").isSome) :
    ∃ d e, EntityRead name entry d ∧ r.entity? (qualify ns name) = some e ∧
      s.table.EntityOf ⟨ns, d⟩ name e := by
  obtain ⟨d, hread, hd⟩ := hj.entityTypes ns name entry hentry
  obtain ⟨d, rfl, hentity⟩ := (only_entityTypeOf_at name entry).of_ok hread htypes
  obtain ⟨e, he⟩ := h.entities ns d hd name
  have hname : name ∈ d.names := by simp [hentity.names]
  exact ⟨d, e, hentity, (h.entries.entities _ e).2 ⟨ns, d, name, hd, hname, rfl, he⟩, he⟩

theorem meansAt_shape {ns name : String} {a : Json}
    (ha : (TypePlace.shape ns name).written j = some a) : s.MeansAt r (.shape ns name) a := by
  obtain ⟨entry, hentry, ha⟩ := Option.bind_eq_some_iff.1 ha
  obtain ⟨d, e, hread, he, hof⟩ := exists_entity hj h hentry (.inl (by simp [ha]))
  obtain ⟨record, hrecord, htype⟩ := hread.shape a ha
  obtain ⟨fields, hfields, hdenotes⟩ := exists_of_rel hof.shape record hrecord
  exact ⟨_, _, htype, by simp [TypePlace.resolved, he, hfields], .record hdenotes⟩

theorem meansAt_tags {ns name : String} {a : Json}
    (ha : (TypePlace.tags ns name).written j = some a) : s.MeansAt r (.tags ns name) a := by
  obtain ⟨entry, hentry, ha⟩ := Option.bind_eq_some_iff.1 ha
  obtain ⟨d, e, hread, he, hof⟩ := exists_entity hj h hentry (.inr (by simp [ha]))
  obtain ⟨T, hT, htype⟩ := hread.tags a ha
  obtain ⟨type, htags, hdenotes⟩ := exists_of_rel hof.tags T hT
  exact ⟨_, _, htype, by simp [TypePlace.resolved, he, htags], hdenotes⟩

theorem meansAt_context {ns id : String} {a : Json}
    (ha : (TypePlace.context ns id).written j = some a) : s.MeansAt r (.context ns id) a := by
  obtain ⟨entry, hentry, ha⟩ := Option.bind_eq_some_iff.1 ha
  obtain ⟨d, hread, hd⟩ := hj.actions ns id entry hentry
  obtain ⟨d, rfl, haction⟩ := (only_actionOf_at id entry).of_ok hread
  have hid : id ∈ d.names := by simp [haction.names]
  obtain ⟨x, hof⟩ := h.actions ns d hd id hid
  have hx : r.action? (actionType ns) id = some x :=
    (h.entries.actions _ x).2 ⟨ns, d, id, hd, hid, rfl, hof⟩
  obtain ⟨applies, T, happlies, hT, htype⟩ := haction.context a ha
  obtain ⟨y, hy, hof⟩ := exists_of_rel hof.appliesTo applies happlies
  have hcontext := hof.context
  rw [hT] at hcontext
  generalize hfields : y.context = fields at hcontext
  cases hcontext with
  | some hdenotes =>
    exact ⟨_, _, htype, by simp [TypePlace.resolved, hx, hy, hfields], hdenotes⟩

theorem meansAt_commonType {ns name : String} {a : Json}
    (ha : (TypePlace.commonType ns name).written j = some a) :
    s.MeansAt r (.commonType ns name) a := by
  obtain ⟨d, hread, hd⟩ := hj.commonTypes ns name a ha
  obtain ⟨d, rfl, rfl, htype⟩ := (only_commonTypeOf_at name a).of_ok hread
  have hd : s.table.commonType? (qualify ns d.name) = some ⟨ns, d⟩ :=
    (commonType?_eq_some_iff h.distinct.commonTypes).2 (mem_table_commonTypes.2 ⟨rfl, hd⟩)
  obtain ⟨x, hx, hdenotes⟩ := h.ready.exists_expand hd
  exact ⟨_, _, htype, by simp [TypePlace.resolved, hx], hdenotes⟩

/-- Every type in a document has its meaning in the resolved schema. -/
theorem meansAt {p : TypePlace} {a : Json} (ha : p.written j = some a) : s.MeansAt r p a := by
  induction p generalizing a with
  | shape ns name => exact meansAt_shape hj h ha
  | tags ns name => exact meansAt_tags hj h ha
  | context ns id => exact meansAt_context hj h ha
  | commonType ns name => exact meansAt_commonType hj h ha
  | element p ih =>
    obtain ⟨b, hb, ha⟩ := Option.bind_eq_some_iff.1 ha
    obtain ⟨htag, ha⟩ := Option.ite_none_right_eq_some.1 ha
    obtain ⟨T, type, hT, hresolved, hdenotes⟩ := ih hb
    obtain ⟨element, rfl, helement⟩ := ((only_readAs b).of_ok hT).of_set htag ha
    cases hdenotes with
    | set hdenotes => exact ⟨_, _, helement, by simp [TypePlace.resolved, hresolved], hdenotes⟩
  | field p name ih =>
    obtain ⟨b, hb, ha⟩ := Option.bind_eq_some_iff.1 ha
    obtain ⟨htag, ha⟩ := Option.ite_none_right_eq_some.1 ha
    obtain ⟨T, type, hT, hresolved, hdenotes⟩ := ih hb
    obtain ⟨doc, hdoc, ha⟩ := Option.bind_eq_some_iff.1 ha
    obtain ⟨attributes, rfl, hattributes⟩ := ((only_readAs b).of_ok hT).of_record htag hdoc
    obtain ⟨x, hx, rfl, htype⟩ := (only_attributesOf_at doc).of_ok hattributes name a ha
    cases hdenotes with
    | record hdenotes =>
      obtain ⟨f, hf, hdenotes⟩ := hdenotes.exists_field hx
      exact ⟨_, _, htype, by simp [TypePlace.resolved, hresolved, hf], hdenotes⟩

end

end Schema

/-! ## Tags -/

/-- What the name of a built-in type means: an extension type bears its name, and the primitives
are among the built-in types. -/
def BuiltinNamed (name : String) (type : ResolvedType) : Prop :=
  (∃ e : ExtensionType, e.name = name ∧ type = .extension e) ∨
    (name, type) ∈ [("Long", .long), ("String", .string), ("Bool", .bool), ("Boolean", .bool)]

theorem builtinNamed_of_builtinType {name : String} {type : ResolvedType}
    (h : builtinType name = some type) : BuiltinNamed name type := by
  unfold builtinType at h
  split at h <;> cases h
  · exact .inr (by simp)
  · exact .inr (by simp)
  · exact .inr (by simp)
  · exact .inr (by simp)
  · exact .inl ⟨.ipaddr, rfl, rfl⟩
  · exact .inl ⟨.decimal, rfl, rfl⟩
  · exact .inl ⟨.datetime, rfl, rfl⟩
  · exact .inl ⟨.duration, rfl, rfl⟩

/-- Whether there is an entity type of that name, enumerated or not. -/
def ResolvedSchema.hasEntityType (r : ResolvedSchema) (name : String) : Bool :=
  r.entities.contains name || r.enums.contains name

/-- What a type is resolved to is what its tag says. An entity type is the first that the schema
has of those that the name may stand for in the namespace. -/
def KeepsTag (r : ResolvedSchema) (ns : String) (a : Json) (type : ResolvedType) : Prop :=
  match a.textAt? "type" with
  | some "Long" => type = .long
  | some "String" => type = .string
  | some "Boolean" => type = .bool
  | some "Bool" => type = .bool
  | some "Extension" => ∃ name, a.textAt? "name" = some name ∧ BuiltinNamed name type
  | some "Entity" => ∃ name full, a.textAt? "name" = some name ∧
      (entityCandidates ns (Path.ofText name)).find? r.hasEntityType = some full ∧
        type = .entity full
  | some "Set" => ∃ element, type = .set element
  | some "Record" => ∃ fields, type = .record fields
  | _ => True

namespace Schema

variable {s : Schema} {r : ResolvedSchema}

theorem Means.hasEntityType_eq (h : s.Means r) : s.table.hasEntityType = r.hasEntityType := by
  funext name
  have hnames : (s.entityNames ++ s.enumNames).Perm s.entityTypeNames :=
    List.flatMap_append_perm _ _ _
  rw [Bool.eq_iff_iff, hasEntityType_iff, mem_table_entityTypes, ← hnames.mem_iff, List.mem_append,
    ← h.keys_entities_perm.mem_iff, ← h.keys_enums_perm.mem_iff, ResolvedSchema.hasEntityType,
    Bool.or_eq_true, Dict.contains_iff, Dict.contains_iff]

theorem Means.keepsTag (h : s.Means r) {ns : String} {a : Json} {T : TypeExpr}
    {type : ResolvedType} (hread : ReadAs a T) (hdenotes : s.table.Denotes ns T type) :
    KeepsTag r ns a type := by
  unfold KeepsTag
  cases hread with
  | long htag =>
    rw [htag]
    cases hdenotes.builtinType_eq
    rfl
  | string htag =>
    rw [htag]
    cases hdenotes.builtinType_eq
    rfl
  | boolean htag =>
    rw [htag]
    cases hdenotes.builtinType_eq
    rfl
  | bool htag =>
    rw [htag]
    cases hdenotes.builtinType_eq
    rfl
  | extension htag hname =>
    rw [htag]
    exact ⟨_, hname, builtinNamed_of_builtinType hdenotes.builtinType_eq⟩
  | entity htag hname =>
    rw [htag]
    cases hdenotes with
    | entity hp =>
      refine ⟨_, _, hname, ?_, rfl⟩
      rw [← h.hasEntityType_eq]
      unfold lookupEntityType at hp
      split at hp
      · rename_i full hfull
        cases hp
        exact hfull
      · cases hp
  | entityOrCommon htag hname =>
    rw [htag]
    trivial
  | set htag he helement =>
    rw [htag]
    cases hdenotes
    exact ⟨_, rfl⟩
  | record htag hattributes =>
    rw [htag]
    cases hdenotes
    exact ⟨_, rfl⟩
  | reference htag hother =>
    rw [htag]
    split
    all_goals try trivial
    -- A tag that is itself a name is none of the known ones.
    all_goals
      rename_i heq
      cases heq
      exact absurd (by decide) hother

/-- Wherever a type stands in a document that resolves, it has a meaning there, and this is what its
tag says. A reference to a common type means what stands at the common type. -/
theorem keepsTag_of_resolve {text : String} {j : Json} (hj : Json.read? text = some j)
    (hs : ofDocumentText text = .ok s) (hr : s.resolve = .ok r) (p : TypePlace) (a : Json)
    (ha : p.written j = some a) :
    (∃ type, p.resolved s r = some type ∧ KeepsTag r p.ns a type) ∧
      ∀ path ns name, typeOf a = .ok (.path path) →
        s.table.lookupType p.ns path = .ok (.commonType (qualify ns name)) →
          p.resolved s r = (TypePlace.commonType ns name).resolved s r := by
  have hmeans := (resolve_eq_ok_iff s r).1 hr
  have hof : ofDocument j = .ok s := by
    rw [ofDocumentText, hj] at hs
    exact mapError_eq_ok_iff.1 hs
  obtain ⟨T, type, hT, hresolved, hdenotes⟩ := meansAt ((only_entries j).of_ok hof) hmeans ha
  refine ⟨⟨type, hresolved, hmeans.keepsTag ((only_readAs a).of_ok hT) hdenotes⟩, ?_⟩
  intro path ns name hpath hcommon
  cases hT.symm.trans hpath
  cases hdenotes with
  | builtin hp => cases hcommon.symm.trans hp
  | entityType hp => cases hcommon.symm.trans hp
  | commonType hp hd hdenotes =>
    cases hcommon.symm.trans hp
    obtain ⟨x, hx, hdenotes'⟩ := hmeans.ready.exists_expand hd
    rw [hresolved, hdenotes.unique hdenotes', TypePlace.resolved, hx]

/-- Users with friends and with an address of an extension type, beside common types and an entity
type that bear the names of all these. -/
def contacts (extension : String) : Json :=
  .object [("", .object [
    ("commonTypes", .object [
      ("User", .object [("type", .string "Long")]),
      ("ipaddr", .object [("type", .string "Long")])]),
    ("entityTypes", .object [
      ("Long", .object []),
      ("User", .object [
        ("shape", .object [
          ("attributes", .object [
            ("address", .object [("name", .string extension), ("type", .string "Extension")])]),
          ("type", .string "Record")]),
        ("tags", .object [
          ("element", .object [("name", .string "User"), ("type", .string "Entity")]),
          ("type", .string "Set")])])])])]

def contactsSchema (address : TypeExpr) : Schema where
  items := [
    .decl (.commonType { name := "User", type := builtinRef "Long" }),
    .decl (.commonType { name := "ipaddr", type := builtinRef "Long" }),
    .decl (.entity { names := ["Long"] }),
    .decl (.entity {
      names := ["User"]
      shape := some ⟨[{ name := "address", type := address }], {}⟩
      tags := some (.set (.entity ⟨["User"]⟩)) })]

theorem read?_contacts (extension : String) :
    Json.read? (contacts extension).text = some (contacts extension) := by
  refine Json.read?_text ?_ ?_
  · simp [contacts, Json.Readable, Json.ReadableMembers, Ascending]
    decide
  · simp [contacts, Json.depth, Json.depthOfMembers, Json.maxDepth]

theorem ofDocument_contacts (extension : String) :
    ofDocument (contacts extension) = .ok (contactsSchema (builtinRef extension)) := by
  have hof : ofDocument (contacts extension) =
      .ok (contactsSchema (builtinRef (Path.ofText extension).text)) := rfl
  rwa [Path.text_ofText] at hof

theorem ofDocumentText_contacts (extension : String) :
    ofDocumentText (contacts extension).text = .ok (contactsSchema (builtinRef extension)) := by
  rw [ofDocumentText, read?_contacts]
  exact mapError_eq_ok_iff.2 (ofDocument_contacts extension)

/-- Neither the common types nor the entity type of these names are meant. -/
theorem keepsTag_of_resolve_contacts :
    let j := contacts "ipaddr"
    let s := contactsSchema (builtinRef "ipaddr")
    Json.read? j.text = some j ∧ ofDocumentText j.text = .ok s ∧ ∃ r, s.resolve = .ok r ∧
      (TypePlace.field (.shape "" "User") "address").resolved s r = some (.extension .ipaddr) ∧
      (TypePlace.element (.tags "" "User")).resolved s r = some (.entity "User") ∧
      (TypePlace.commonType "" "ipaddr").resolved s r = some .long := by
  intro j s
  have hread := read?_contacts "ipaddr"
  have hof := ofDocumentText_contacts "ipaddr"
  obtain ⟨r, hr⟩ : ∃ r, (contactsSchema (builtinRef "ipaddr")).resolve = .ok r :=
    exists_ok_of_isOk (by cbv)
  have hkeeps := keepsTag_of_resolve hread hof hr
  refine ⟨hread, hof, r, hr, ?_, ?_, ?_⟩
  · obtain ⟨⟨type, htype, name, hname, hnamed⟩, -⟩ :=
      hkeeps (.field (.shape "" "User") "address") _ rfl
    cases hname
    rw [htype]
    rcases hnamed with ⟨e, he, rfl⟩ | hnamed
    · cases e with
      | ipaddr => rfl
      | _ => exact absurd he (by decide)
    · simp at hnamed
  · obtain ⟨⟨type, htype, name, full, hname, hfull, rfl⟩, -⟩ :=
      hkeeps (.element (.tags "" "User")) _ rfl
    cases hname
    have hmem : full ∈ ["User", "User"] := List.mem_of_find?_eq_some hfull
    rw [htype, show full = "User" by simpa using hmem]
  · obtain ⟨⟨type, htype, rfl⟩, -⟩ := hkeeps (.commonType "" "ipaddr") _ rfl
    exact htype

/-- No extension type has the name of a primitive. The tag of extension types means the primitive
then, and the document resolves. -/
theorem contacts_long_resolves :
    let j := contacts "Long"
    let s := contactsSchema (builtinRef "Long")
    let address := TypePlace.field (.shape "" "User") "address"
    (∀ e : ExtensionType, e.name ≠ "Long") ∧ ofDocumentText j.text = .ok s ∧
      (∃ a, address.written j = some a ∧ a.textAt? "type" = some "Extension" ∧
        a.textAt? "name" = some "Long") ∧
      ∃ r, s.resolve = .ok r ∧ address.resolved s r = some .long := by
  intro j s address
  have hof := ofDocumentText_contacts "Long"
  obtain ⟨r, hr⟩ : ∃ r, (contactsSchema (builtinRef "Long")).resolve = .ok r :=
    exists_ok_of_isOk (by cbv)
  refine ⟨fun e => by cases e <;> decide, hof, ⟨_, rfl, rfl, rfl⟩, r, hr, ?_⟩
  have hentries := (only_entries _).of_ok (ofDocument_contacts "Long")
  obtain ⟨T, type, hT, hresolved, hdenotes⟩ :=
    meansAt (p := address) hentries ((resolve_eq_ok_iff _ r).1 hr) rfl
  have hlong : builtinRef "Long" = T := Except.ok.inj hT
  subst hlong
  cases hdenotes.builtinType_eq
  exact hresolved

end Schema

end CedarSchema
