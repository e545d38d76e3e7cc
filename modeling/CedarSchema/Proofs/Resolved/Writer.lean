import CedarSchema.Proofs.Document.RoundTrip
import CedarSchema.Proofs.Resolve.Run
import CedarSchema.Proofs.Resolved.Identity
import CedarSchema.Resolved.Writer

/-
  The JSON of a resolved schema tells the schema. Each kind of object is taken apart member by
  member: what stands under a key was written for the part of that key, optional parts are there or
  not, and the tag of a type says which other members there are. Actions stand under the texts of
  their identities, which are all different.
-/

namespace CedarSchema

/-! ## Members -/

/-- Equal objects have the same values under all keys. -/
theorem find?_eq_of_ofMembers_eq {l m : List (String × Json)}
    (h : Json.ofMembers l = .ofMembers m) (k : String) :
    (Dict.ofList l).find? k = (Dict.ofList m).find? k :=
  congrArg (findEntry k) (Json.object.inj h)

theorem ofStrings_injective : Function.Injective Json.ofStrings := fun _ _ h =>
  List.map_injective_iff.2 (fun _ _ => Json.string.inj) (Json.array.inj h)

theorem entries_eq_of_map_eq {α : Type} {write : α → Json} (hwrite : Function.Injective write)
    {d e : Dict String α}
    (h : d.entries.map (fun x => (x.1, write x.2)) = e.entries.map fun x => (x.1, write x.2)) :
    d = e := by
  have hentry : Function.Injective fun x : String × α => (x.1, write x.2) := fun x y hxy =>
    Prod.ext (Prod.mk.inj hxy).1 (hwrite (Prod.mk.inj hxy).2)
  exact Dict.entries_injective (List.map_injective_iff.2 hentry h)

theorem ofTexts_injective : Function.Injective Json.ofTexts := fun _ _ h =>
  entries_eq_of_map_eq (fun _ _ => Json.string.inj) (Json.object.inj h)

/-- The annotations that are written, if there are any. -/
def annotationDictWritten (annotations : Dict String String) : Option (Dict String String) :=
  if annotations.isEmpty then none else some annotations

theorem annotationDictMember_eq (annotations : Dict String String) :
    annotationDictMember annotations =
      optionalMember "annotations" Json.ofTexts (annotationDictWritten annotations) := by
  unfold annotationDictMember annotationDictWritten
  split <;> rfl

theorem annotationDictWritten_injective : Function.Injective annotationDictWritten := by
  intro d e h
  unfold annotationDictWritten at h
  split at h
  · rename_i hd
    split at h
    · rename_i he
      exact Dict.entries_injective ((List.isEmpty_iff.1 hd).trans (List.isEmpty_iff.1 he).symm)
    · cases h
  · split at h
    · cases h
    · exact Option.some.inj h

theorem annotations_eq {d e : Dict String String}
    (h : (annotationDictWritten d).map Json.ofTexts = (annotationDictWritten e).map Json.ofTexts) :
    d = e :=
  annotationDictWritten_injective (Option.map_injective ofTexts_injective h)

/-! ## Types -/

theorem ExtensionType.name_injective : Function.Injective ExtensionType.name := by
  intro a b h
  cases a <;> cases b <;> first | rfl | exact absurd h (by decide)

namespace ResolvedType

/-- The tag of a type. -/
def tag : ResolvedType → String
  | bool => "Bool"
  | long => "Long"
  | string => "String"
  | extension _ => "Extension"
  | set _ => "Set"
  | record _ => "Record"
  | entity _ => "Entity"

theorem tag_eq {a b : ResolvedType} (h : a.toJson = b.toJson) : a.tag = b.tag := by
  have hfind (a : ResolvedType) :
      ∃ l, a.toJson = .ofMembers l ∧ (Dict.ofList l).find? "type" = some (.string a.tag) := by
    cases a with
    | _ => exact ⟨_, rfl, by simp [tag]⟩
  obtain ⟨l, hl, ha⟩ := hfind a
  obtain ⟨m, hm, hb⟩ := hfind b
  rw [hl, hm] at h
  rw [find?_eq_of_ofMembers_eq h, hb] at ha
  exact (Json.string.inj (Option.some.inj ha)).symm

mutual

/-- Types of the same JSON are equal. -/
theorem eq_of_toJson_eq : (a b : ResolvedType) → a.toJson = b.toJson → a = b
  | .bool, b, h => by
    cases b with
    | bool => rfl
    | _ => exact absurd (tag_eq h) (by simp [tag])
  | .long, b, h => by
    cases b with
    | long => rfl
    | _ => exact absurd (tag_eq h) (by simp [tag])
  | .string, b, h => by
    cases b with
    | string => rfl
    | _ => exact absurd (tag_eq h) (by simp [tag])
  | .extension e, b, h => by
    cases b with
    | extension e' =>
      have hname : e.name = e'.name := by simpa using find?_eq_of_ofMembers_eq h "name"
      rw [ExtensionType.name_injective hname]
    | _ => exact absurd (tag_eq h) (by simp [tag])
  | .set element, b, h => by
    cases b with
    | set element' =>
      have helement : element.toJson = element'.toJson := by
        simpa using find?_eq_of_ofMembers_eq h "element"
      rw [element.eq_of_toJson_eq element' helement]
    | _ => exact absurd (tag_eq h) (by simp [tag])
  | .record fields, b, h => by
    cases b with
    | record fields' =>
      have hattributes : fieldMembers fields = fieldMembers fields' := by
        simpa using find?_eq_of_ofMembers_eq h "attributes"
      rw [eq_of_fieldMembers_eq fields fields' hattributes]
    | _ => exact absurd (tag_eq h) (by simp [tag])
  | .entity name, b, h => by
    cases b with
    | entity name' =>
      have hname : name = name' := by simpa using find?_eq_of_ofMembers_eq h "name"
      rw [hname]
    | _ => exact absurd (tag_eq h) (by simp [tag])
termination_by a => sizeOf a

theorem eq_of_fieldMembers_eq : (fields fields' : List (String × Field ResolvedType)) →
    fieldMembers fields = fieldMembers fields' → fields = fields'
  | [], [], _ => rfl
  | [], (_, ⟨_, _, _⟩) :: _, h => nomatch h
  | (_, ⟨_, _, _⟩) :: _, [], h => nomatch h
  | (name, ⟨type, required, annotations⟩) :: rest,
      (name', ⟨type', required', annotations'⟩) :: rest', h => by
    rw [fieldMembers, fieldMembers, List.cons.injEq, Prod.mk.injEq] at h
    obtain ⟨⟨hname, hfield⟩, hrest⟩ := h
    rw [annotationDictMember_eq, annotationDictMember_eq] at hfield
    have htype : type.toJson = type'.toJson := by
      simpa using find?_eq_of_ofMembers_eq hfield "type"
    have hrequired : required = required' := by
      simpa using find?_eq_of_ofMembers_eq hfield "required"
    have hannotations : annotations = annotations' :=
      annotations_eq (by simpa using find?_eq_of_ofMembers_eq hfield "annotations")
    rw [hname, type.eq_of_toJson_eq type' htype, hrequired, hannotations,
      eq_of_fieldMembers_eq rest rest' hrest]
termination_by fields => sizeOf fields

end

theorem toJson_injective : Function.Injective toJson := eq_of_toJson_eq

end ResolvedType

theorem Fields.toJson_injective : Function.Injective Fields.toJson := by
  intro fields fields' h
  have hattributes : fieldMembers fields = fieldMembers fields' := by
    simpa using find?_eq_of_ofMembers_eq h "attributes"
  exact ResolvedType.eq_of_fieldMembers_eq fields fields' hattributes

/-! ## Entity types and actions -/

theorem ResolvedEntity.toJson_eq (e : ResolvedEntity) : e.toJson =
    .ofMembers (("name", .string e.name) :: ("member_of", .ofStrings e.parents) ::
      (optionalMember "annotations" Json.ofTexts (annotationDictWritten e.annotations) ++
        optionalMember "shape" Fields.toJson e.shape ++
        optionalMember "tags" ResolvedType.toJson e.tags)) := by
  rw [← annotationDictMember_eq]
  rfl

theorem ResolvedEntity.toJson_injective : Function.Injective ResolvedEntity.toJson := by
  intro e e' h
  rw [toJson_eq, toJson_eq] at h
  have hname : e.name = e'.name := by simpa using find?_eq_of_ofMembers_eq h "name"
  have hparents : Json.ofStrings e.parents = .ofStrings e'.parents := by
    simpa using find?_eq_of_ofMembers_eq h "member_of"
  have hannotations : e.annotations = e'.annotations :=
    annotations_eq (by simpa using find?_eq_of_ofMembers_eq h "annotations")
  have hshape : e.shape.map Fields.toJson = e'.shape.map Fields.toJson := by
    simpa using find?_eq_of_ofMembers_eq h "shape"
  have htags : e.tags.map ResolvedType.toJson = e'.tags.map ResolvedType.toJson := by
    simpa using find?_eq_of_ofMembers_eq h "tags"
  cases e
  cases e'
  rw [ResolvedEntity.mk.injEq]
  exact ⟨hname, hannotations, ofStrings_injective hparents,
    Option.map_injective Fields.toJson_injective hshape,
    Option.map_injective ResolvedType.toJson_injective htags⟩

theorem ResolvedEnum.toJson_injective : Function.Injective ResolvedEnum.toJson := by
  intro e e' h
  rw [toJson, toJson, annotationDictMember_eq, annotationDictMember_eq] at h
  have hname : e.name = e'.name := by simpa using find?_eq_of_ofMembers_eq h "name"
  have hvalues : Json.ofStrings e.values = .ofStrings e'.values := by
    simpa using find?_eq_of_ofMembers_eq h "values"
  have hannotations : e.annotations = e'.annotations :=
    annotations_eq (by simpa using find?_eq_of_ofMembers_eq h "annotations")
  cases e
  cases e'
  rw [ResolvedEnum.mk.injEq]
  exact ⟨hname, hannotations, ofStrings_injective hvalues⟩

theorem EntityUid.toJson_injective : Function.Injective EntityUid.toJson := by
  intro u v h
  have htype : u.type = v.type := by simpa using find?_eq_of_ofMembers_eq h "type"
  have hid : u.id = v.id := by simpa using find?_eq_of_ofMembers_eq h "id"
  cases u
  cases v
  rw [EntityUid.mk.injEq]
  exact ⟨htype, hid⟩

theorem ResolvedAppliesTo.toJson_injective : Function.Injective ResolvedAppliesTo.toJson := by
  intro a a' h
  have hprincipals : Json.ofStrings a.principals = .ofStrings a'.principals := by
    simpa using find?_eq_of_ofMembers_eq h "principals"
  have hresources : Json.ofStrings a.resources = .ofStrings a'.resources := by
    simpa using find?_eq_of_ofMembers_eq h "resources"
  have hcontext : Fields.toJson a.context = Fields.toJson a'.context := by
    simpa using find?_eq_of_ofMembers_eq h "context"
  cases a
  cases a'
  rw [ResolvedAppliesTo.mk.injEq]
  exact ⟨ofStrings_injective hprincipals, ofStrings_injective hresources,
    Fields.toJson_injective hcontext⟩

/-- What an action applies to is never written as null. -/
theorem appliesTo_eq {a b : Option ResolvedAppliesTo}
    (h : (a.map ResolvedAppliesTo.toJson).getD .null =
      (b.map ResolvedAppliesTo.toJson).getD .null) : a = b := by
  cases a with
  | none =>
    cases b with
    | none => rfl
    | some b => cases h
  | some a =>
    cases b with
    | none => cases h
    | some b => rw [ResolvedAppliesTo.toJson_injective h]

theorem ResolvedAction.toJson_injective : Function.Injective ResolvedAction.toJson := by
  intro a a' h
  rw [toJson, toJson, annotationDictMember_eq, annotationDictMember_eq] at h
  have huid : a.uid.toJson = a'.uid.toJson := by simpa using find?_eq_of_ofMembers_eq h "uid"
  have hparents : a.parents.map EntityUid.toJson = a'.parents.map EntityUid.toJson := by
    simpa using find?_eq_of_ofMembers_eq h "member_of"
  have happliesTo : a.appliesTo = a'.appliesTo :=
    appliesTo_eq (by simpa using find?_eq_of_ofMembers_eq h "applies_to")
  have hannotations : a.annotations = a'.annotations :=
    annotations_eq (by simpa using find?_eq_of_ofMembers_eq h "annotations")
  cases a
  cases a'
  rw [ResolvedAction.mk.injEq]
  exact ⟨EntityUid.toJson_injective huid, hannotations,
    List.map_injective_iff.2 EntityUid.toJson_injective hparents, happliesTo⟩

/-! ## Schemas -/

namespace ResolvedSchema

/-- The actions under the texts of their identities. -/
def actionMembers (r : ResolvedSchema) : List (String × Json) :=
  r.actions.entries.map fun e => (e.1.text, e.2.toJson)

theorem nodup_actionMembers (r : ResolvedSchema) : (r.actionMembers.map Prod.fst).Nodup := by
  have hkeys : r.actionMembers.map Prod.fst = r.actions.keys.map EntityUid.text := by
    rw [actionMembers, Dict.keys, List.map_map, List.map_map]
    rfl
  rw [hkeys]
  exact r.actions.nodup_keys.map EntityUid.text_injective

/-- Under the text of an identity there is the action of that identity. -/
theorem find?_actionMembers {r : ResolvedSchema} {u : EntityUid} {a : ResolvedAction} :
    (Dict.ofList r.actionMembers).find? u.text = some a.toJson ↔
      r.actions.find? u = some a := by
  rw [Dict.find?_ofList_iff r.nodup_actionMembers, actionMembers, List.mem_map,
    ← Dict.mem_entries_iff]
  constructor
  · rintro ⟨⟨v, b⟩, hmem, heq⟩
    obtain ⟨hv, hb⟩ := Prod.mk.inj heq
    rwa [← EntityUid.text_injective hv, ← ResolvedAction.toJson_injective hb]
  · intro hmem
    exact ⟨(u, a), hmem, rfl⟩

theorem toJson_injective : Function.Injective ResolvedSchema.toJson := by
  intro r r' h
  have hentities : r.entities = r'.entities := by
    refine entries_eq_of_map_eq ResolvedEntity.toJson_injective ?_
    simpa using find?_eq_of_ofMembers_eq h "entities"
  have henums : r.enums = r'.enums := by
    refine entries_eq_of_map_eq ResolvedEnum.toJson_injective ?_
    simpa using find?_eq_of_ofMembers_eq h "enums"
  have hmembers : Json.ofMembers r.actionMembers = .ofMembers r'.actionMembers := by
    simpa [actionMembers] using find?_eq_of_ofMembers_eq h "actions"
  have hactions : r.actions = r'.actions := by
    refine Dict.ext_find? fun u => Option.ext fun a => ?_
    rw [← find?_actionMembers, ← find?_actionMembers, find?_eq_of_ofMembers_eq hmembers]
  cases r
  cases r'
  rw [ResolvedSchema.mk.injEq]
  exact ⟨hentities, henums, hactions⟩

end ResolvedSchema

/-! ## What is resolved has a text that can be read -/

section

open Json

theorem Ascending.of_map_fst_eq {α β : Type} {es : List (String × α)} {fs : List (String × β)}
    (hes : Ascending es) (h : fs.map Prod.fst = es.map Prod.fst) : Ascending fs := by
  have hkeys : (es.map Prod.fst).Pairwise fun k k' => compare k k' = .lt :=
    List.pairwise_map.2 hes
  rw [← h] at hkeys
  exact List.pairwise_map.1 hkeys

theorem readable_annotationDictMember (annotations : Dict String String) :
    ∀ e ∈ annotationDictMember annotations, e.2.Readable := by
  rw [annotationDictMember_eq]
  exact readable_optionalMember readable_ofTexts _

theorem readable_of_builtinType {name : String} {type : ResolvedType}
    (h : builtinType name = some type) : type.toJson.Readable := by
  unfold builtinType at h
  split at h
  all_goals cases h
  all_goals exact readable_ofMembers (by simp [Readable])

theorem fieldMembers_map_fst (fields : Fields) :
    (fieldMembers fields).map Prod.fst = fields.map Prod.fst := by
  induction fields with
  | nil => rfl
  | cons f fields ih => exact congrArg (f.1 :: ·) ih

theorem readable_fieldMembers {fields : Fields} (h : ∀ f ∈ fields, f.2.type.toJson.Readable) :
    ∀ e ∈ fieldMembers fields, e.2.Readable := by
  induction fields with
  | nil => exact nofun
  | cons f fields ih =>
    obtain ⟨hf, hfields⟩ := List.forall_mem_cons.1 h
    refine List.forall_mem_cons.2 ⟨readable_ofMembers ?_, ih hfields⟩
    refine List.forall_mem_cons.2 ⟨hf, List.forall_mem_cons.2 ⟨trivial, ?_⟩⟩
    exact readable_annotationDictMember _

end

namespace SymbolTable

variable {t : SymbolTable}

mutual

/-- What a type stands for has its fields in order at every depth. -/
theorem Denotes.readable {ns : String} : {type : TypeExpr} → {a : ResolvedType} →
    t.Denotes ns type a → a.toJson.Readable
  | _, _, .builtin hp => by
    obtain ⟨name, hname⟩ := (ends_lookupType t ns _).of_ok hp
    exact readable_of_builtinType hname
  | _, _, .entityType _ => Json.readable_ofMembers (by simp [Json.Readable])
  | _, _, .commonType _ _ h => h.readable
  | _, _, .entity _ => Json.readable_ofMembers (by simp [Json.Readable])
  | _, _, .set h => by
    have helement := h.readable
    exact Json.readable_ofMembers (by simpa [Json.Readable] using helement)
  | _, _, .record h => by
    have hfields := h.readable
    exact Json.readable_ofMembers (by simpa [Json.Readable] using hfields)

theorem DenotesRecord.readable {ns : String} : {r : Record TypeExpr} → {fields : Fields} →
    t.DenotesRecord ns r fields → (Json.object (fieldMembers fields)).Readable
  | _, _, @DenotesRecord.mk _ _ _ _ fields h _ => by
    have hfields : ∀ f ∈ (Dict.ofList fields).entries, f.2.type.toJson.Readable :=
      fun f hf => h.readable f (Dict.mem_of_mem_ofList hf)
    refine ⟨?_, Json.readableMembers_iff.2 (readable_fieldMembers hfields)⟩
    exact (Dict.ofList fields).ascending.of_map_fst_eq (fieldMembers_map_fst _)

theorem DenotesAll.readable {ns : String} : {attributes : List (Attribute TypeExpr)} →
    {fields : Fields} → t.DenotesAll ns attributes fields → ∀ f ∈ fields, f.2.type.toJson.Readable
  | _, _, .nil _ => nofun
  | _, _, .cons h hrest => List.forall_mem_cons.2 ⟨h.readable, hrest.readable⟩

end

end SymbolTable

section

open Json SymbolTable

variable {t : SymbolTable}

/-- What holds of the value of one side of a relation, if there is one. -/
theorem forall_mem_of_rel {α β : Type} {R : α → β → Prop} {P : β → Prop} {a : Option α}
    {b : Option β} (h : Option.Rel R a b) (hR : ∀ x y, R x y → P y) : ∀ y ∈ b, P y := by
  cases h with
  | none => exact nofun
  | some hxy =>
    rintro _ ⟨⟩
    exact hR _ _ hxy

theorem readable_optionalMember_of_mem {α : Type} {key : String} {write : α → Json} {a : Option α}
    (h : ∀ x ∈ a, (write x).Readable) : ∀ e ∈ optionalMember key write a, e.2.Readable := by
  cases a with
  | none => exact nofun
  | some x => exact List.forall_mem_singleton.2 (h x rfl)

theorem Fields.readable_toJson {fields : Fields}
    (h : (Json.object (fieldMembers fields)).Readable) : (Fields.toJson fields).Readable :=
  readable_ofMembers (List.forall_mem_singleton.2 h)

theorem readable_of_entityOf {d : Scoped EntityDecl} {name : String} {e : ResolvedEntity}
    (h : t.EntityOf d name e) : e.toJson.Readable := by
  have hshape := forall_mem_of_rel h.shape fun _ _ hr => Fields.readable_toJson hr.readable
  have htags := forall_mem_of_rel h.tags fun _ _ ht => ht.readable
  rw [ResolvedEntity.toJson_eq]
  refine readable_ofMembers (List.forall_mem_cons.2 ⟨trivial, ?_⟩)
  refine List.forall_mem_cons.2 ⟨readable_ofStrings _, List.forall_mem_append.2 ⟨?_, ?_⟩⟩
  · refine List.forall_mem_append.2 ⟨readable_optionalMember readable_ofTexts _, ?_⟩
    exact readable_optionalMember_of_mem hshape
  · exact readable_optionalMember_of_mem htags

theorem ResolvedEnum.readable_toJson (e : ResolvedEnum) : e.toJson.Readable := by
  refine readable_ofMembers (List.forall_mem_cons.2 ⟨trivial, ?_⟩)
  exact List.forall_mem_cons.2 ⟨readable_ofStrings _, readable_annotationDictMember _⟩

theorem EntityUid.readable_toJson (u : EntityUid) : u.toJson.Readable :=
  readable_ofMembers (List.forall_mem_cons.2 ⟨trivial, List.forall_mem_singleton.2 trivial⟩)

theorem readable_of_contextOf {ns : String} {context : Option TypeExpr} {fields : Fields}
    (h : t.ContextOf ns context fields) : (Json.object (fieldMembers fields)).Readable := by
  cases h with
  | none => exact ⟨.nil, trivial⟩
  | some h =>
    have hmembers := readableMembers_iff.1 h.readable.2
    exact hmembers ("attributes", .object (fieldMembers fields)) (mem_of_findEntry (by simp))

theorem readable_of_appliesToOf {ns : String} {a : AppliesTo} {r : ResolvedAppliesTo}
    (h : t.AppliesToOf ns a r) : r.toJson.Readable := by
  have hcontext := Fields.readable_toJson (readable_of_contextOf h.context)
  refine readable_ofMembers (List.forall_mem_cons.2 ⟨readable_ofStrings _, ?_⟩)
  exact List.forall_mem_cons.2 ⟨readable_ofStrings _, List.forall_mem_singleton.2 hcontext⟩

theorem readable_of_actionOf {d : Scoped ActionDecl} {name : String} {a : ResolvedAction}
    (h : t.ActionOf d name a) : a.toJson.Readable := by
  have happliesTo := forall_mem_of_rel h.appliesTo fun _ _ ha => readable_of_appliesToOf ha
  have hparents : (Json.array (a.parents.map EntityUid.toJson)).Readable :=
    readableItems_iff.2 (List.forall_mem_map.2 fun u _ => u.readable_toJson)
  refine readable_ofMembers (List.forall_mem_cons.2 ⟨a.uid.readable_toJson, ?_⟩)
  refine List.forall_mem_cons.2 ⟨hparents, List.forall_mem_cons.2 ⟨?_, ?_⟩⟩
  · cases ha : a.appliesTo with
    | none => trivial
    | some x => exact happliesTo x ha
  · exact readable_annotationDictMember _

end

namespace Schema

open Json

variable {s : Schema} {r : ResolvedSchema}

theorem readable_toJson_of_resolve (h : s.resolve = .ok r) : r.toJson.Readable := by
  have htells := says_of_resolve h
  have hobject {α : Type} (d : Dict String α) {write : α → Json}
      (h : ∀ e ∈ d.entries, (write e.2).Readable) :
      (Json.object (d.entries.map fun e => (e.1, write e.2))).Readable :=
    ⟨d.ascending.of_map_fst_eq (List.map_map ..),
      readableMembers_iff.2 (List.forall_mem_map.2 h)⟩
  have hentities : ∀ e ∈ r.entities.entries, e.2.toJson.Readable := by
    intro e he
    obtain ⟨ns, d, n, -, -, -, hd⟩ := (htells.entities e.1 e.2).1 (Dict.mem_entries_iff.1 he)
    exact readable_of_entityOf hd
  have hactions : ∀ e ∈ r.actions.entries, e.2.toJson.Readable := by
    intro e he
    obtain ⟨ns, d, n, -, -, -, hd⟩ := (htells.actions e.1 e.2).1 (Dict.mem_entries_iff.1 he)
    exact readable_of_actionOf hd
  refine readable_ofMembers (List.forall_mem_cons.2 ⟨hobject r.entities hentities, ?_⟩)
  refine List.forall_mem_cons.2 ⟨hobject r.enums fun e _ => e.2.readable_toJson, ?_⟩
  exact List.forall_mem_singleton.2 (readable_ofMembers (List.forall_mem_map.2 hactions))

/-- Different identities have different texts, so each action of a resolved schema has one member
for itself; and the JSON value of a resolved schema tells the schema, as its text does. -/
theorem toJson_faithful :
    Function.Injective EntityUid.text ∧
      (∀ r : ResolvedSchema, ∃ members actions, r.toJson = .object members ∧
        member? members "actions" = some (.object actions) ∧
        actions.Perm (r.actions.entries.map fun e => (e.1.text, e.2.toJson))) ∧
      ∀ s₁ s₂ r₁ r₂, resolve s₁ = .ok r₁ → resolve s₂ = .ok r₂ →
        (r₁.toJson = r₂.toJson → r₁ = r₂) ∧ (r₁.toJson.text = r₂.toJson.text → r₁ = r₂) := by
  refine ⟨EntityUid.text_injective, fun r => ?_, fun s₁ s₂ r₁ r₂ h₁ h₂ => ?_⟩
  · refine ⟨_, (Dict.ofList r.actionMembers).entries, rfl, ?_,
      Dict.entries_ofList_perm r.nodup_actionMembers⟩
    simp [member?, ofMembers, ResolvedSchema.actionMembers]
  · refine ⟨fun h => ResolvedSchema.toJson_injective h, fun h => ?_⟩
    have hjson := eq_of_text_eq (readable_toJson_of_resolve h₁) (readable_toJson_of_resolve h₂) h
    exact ResolvedSchema.toJson_injective hjson

/-- Two entity types of one declaration and an action. -/
def visits : Schema where
  items := [
    .decl (.entity {
      names := ["User", "Guest"]
      shape := some { attributes := [{ name := "age", type := .path ⟨["Long"]⟩ }] } }),
    .decl (.action {
      names := ["greet"]
      appliesTo := some { principals := some [⟨["User"]⟩], resources := some [⟨["Guest"]⟩] } })]

/-- The same declared one by one, in another order. -/
def visitsApart : Schema where
  items := [
    .decl (.action {
      names := ["greet"]
      appliesTo := some { principals := some [⟨["User"]⟩], resources := some [⟨["Guest"]⟩] } }),
    .decl (.entity {
      names := ["Guest"]
      shape := some { attributes := [{ name := "age", type := .path ⟨["Long"]⟩ }] } }),
    .decl (.entity {
      names := ["User"]
      shape := some { attributes := [{ name := "age", type := .path ⟨["Long"]⟩ }] } })]

theorem toJson_faithful_visits : ∃ r₁ r₂, visits.resolve = .ok r₁ ∧ visitsApart.resolve = .ok r₂ ∧
    r₁.toJson.text = r₂.toJson.text ∧ r₁ = r₂ ∧
    ∃ members action, r₁.toJson = .object members ∧
      member? members "actions" = some (.object [("Action::\"greet\"", action)]) := by
  have hactions : visits.resolveRecorded.outcome.map (·.map (·.actions.keys)) =
      some (.ok [⟨"Action", "greet"⟩]) := by cbv
  have hjson : visits.resolveRecorded.outcome.map (·.map (·.toJson)) =
      visitsApart.resolveRecorded.outcome.map (·.map (·.toJson)) := by cbv
  obtain ⟨r₁, h₁⟩ := exists_resolve_of_recorded (s := visits) (by cbv)
  obtain ⟨r₂, h₂⟩ := exists_resolve_of_recorded (s := visitsApart) (by cbv)
  rw [(follows_resolveRecorded _).outcome, h₁] at hactions hjson
  rw [(follows_resolveRecorded _).outcome, h₂] at hjson
  have hsame : r₁.toJson = r₂.toJson := Except.ok.inj (Option.some.inj hjson)
  have hkeys : r₁.actions.keys = [⟨"Action", "greet"⟩] := Except.ok.inj (Option.some.inj hactions)
  obtain ⟨-, hmember, htold⟩ := toJson_faithful
  obtain ⟨members, actions, hmembers, hfound, hperm⟩ := hmember r₁
  obtain ⟨⟨uid, action⟩, hentries, huid⟩ := List.map_eq_singleton_iff.1 hkeys
  rw [hentries, List.map_singleton, List.perm_singleton] at hperm
  have htext := congrArg Json.text hsame
  have heq := (htold _ _ _ _ h₁ h₂).2 htext
  refine ⟨r₁, r₂, h₁, h₂, htext, heq, members, action.toJson, hmembers, ?_⟩
  rw [hfound, hperm, huid]
  rfl

end Schema

end CedarSchema
