import CedarSchema.Proofs.Document.Normal
import CedarSchema.Proofs.Resolve.Denotation

/-
  Types in normal form. Two tables that declare the same names, the one with its common types in
  normal form, bind every name alike. A type then stands for the same thing in the one as its normal
  form does in the other (`IsNormalOf.denotes`), and it is well bound and mentions a common type
  exactly if its normal form does. The order of the attributes of a record has no part in this,
  because what a record stands for has them in ascending order anyhow.
-/

namespace CedarSchema

open SymbolTable

/-! ## Normal forms -/

theorem annotationDict_normal (annotations : List Annotation) :
    annotationDict (normalAnnotations annotations) = annotationDict annotations := by
  have hentry (e : String × String) :
      (e.1, (if e.2.isEmpty then none else some e.2).getD "") = e := by
    obtain ⟨k, v⟩ := e
    dsimp only
    split
    · rename_i hv
      rw [String.isEmpty_iff.1 hv]
      rfl
    · rfl
  have hentries : (normalAnnotations annotations).map (fun a => (a.key, a.value.getD "")) =
      (annotationDict annotations).entries := by
    rw [normalAnnotations, List.map_map]
    exact (List.map_congr_left fun e _ => hentry e).trans (List.map_id _)
  rw [annotationDict, hentries, Dict.ofList_entries]

theorem normalAttributes_map_fst (attributes : List (Attribute TypeExpr)) :
    (normalAttributes attributes).map Prod.fst = attributes.map Attribute.name := by
  induction attributes with
  | nil => rfl
  | cons a rest ih =>
    obtain ⟨name, type, required, annotations, comments⟩ := a
    exact congrArg (name :: ·) ih

/-- Every attribute of a normal form stands under its name. -/
theorem name_of_mem_normalAttributes {attributes : List (Attribute TypeExpr)}
    {e : String × Attribute TypeExpr} (h : e ∈ normalAttributes attributes) : e.2.name = e.1 := by
  induction attributes with
  | nil => cases h
  | cons a rest ih =>
    obtain ⟨name, type, required, annotations, comments⟩ := a
    rcases List.mem_cons.1 h with rfl | h
    · rfl
    · exact ih h

theorem nodup_normal_names (r : Record TypeExpr) :
    ((Record.normal r).attributes.map Attribute.name).Nodup := by
  obtain ⟨attributes, comments⟩ := r
  have hkeys : (Dict.ofList (normalAttributes attributes)).values.map Attribute.name =
      (Dict.ofList (normalAttributes attributes)).keys := by
    rw [Dict.values, Dict.keys, List.map_map]
    exact List.map_congr_left fun e he =>
      name_of_mem_normalAttributes (Dict.mem_of_mem_ofList he)
  rw [Record.normal, hkeys]
  exact Dict.nodup_keys _

/-- Without repeated names no attribute is lost. -/
theorem mem_normal_attributes {attributes : List (Attribute TypeExpr)} {comments : Comments}
    (h : (attributes.map Attribute.name).Nodup) {a : Attribute TypeExpr} :
    a ∈ (Record.normal ⟨attributes, comments⟩).attributes ↔
      a ∈ (normalAttributes attributes).map Prod.snd := by
  rw [← normalAttributes_map_fst] at h
  exact ((Dict.entries_ofList_perm h).map Prod.snd).mem_iff

namespace SymbolTable

/-- The table declares the same names as `t`, and has its common types in normal form. -/
structure IsNormalOf (t' t : SymbolTable) : Prop where
  entityTypes : ∀ name, t'.hasEntityType name = t.hasEntityType name
  commonTypes : ∀ name, t'.commonType? name =
    (t.commonType? name).map fun d => ⟨d.ns, d.decl.normal⟩

namespace IsNormalOf

variable {t t' : SymbolTable} (h : t'.IsNormalOf t)

include h

/-! ## Names -/

theorem sameNames : t.SameNames t' := by
  refine ⟨h.entityTypes, fun name => ?_⟩
  rw [hasCommonType, hasCommonType, h.commonTypes, Option.isSome_map]

theorem lookupType_eq (ns : String) (p : Path) : t'.lookupType ns p = t.lookupType ns p :=
  h.sameNames.lookupType_eq ns p

theorem lookupEntityType_eq (ns : String) (p : Path) :
    t'.lookupEntityType ns p = t.lookupEntityType ns p :=
  h.sameNames.lookupEntityType_eq ns p

theorem commonType?_eq {name : String} {d : Scoped CommonTypeDecl}
    (hd : t.commonType? name = some d) : t'.commonType? name = some ⟨d.ns, d.decl.normal⟩ := by
  rw [h.commonTypes, hd, Option.map_some]

end IsNormalOf

/-! ## Denotation -/

/-- The attribute stands for the field, both under one name. -/
structure AttributeOf (t : SymbolTable) (ns : String) (e : String × Attribute TypeExpr)
    (f : String × Field ResolvedType) : Prop where
  key : e.1 = f.1
  name : e.2.name = f.1
  type : t.Denotes ns e.2.type f.2.type
  required : f.2.required = e.2.required
  annotations : f.2.annotations = annotationDict e.2.annotations

theorem denotesAll_of_forall₂ {t : SymbolTable} {ns : String}
    {entries : List (String × Attribute TypeExpr)} {fields : Fields}
    (h : List.Forall₂ (t.AttributeOf ns) entries fields) :
    t.DenotesAll ns (entries.map Prod.snd) fields := by
  induction h with
  | nil => exact .nil ns
  | @cons e f entries fields hef _ ih =>
    obtain ⟨k, name, type, required, annotations, comments⟩ := e
    obtain ⟨k', type', required', annotations'⟩ := f
    obtain ⟨hkey, hname, htype, hrequired, hannotations⟩ := hef
    dsimp only at hkey hname htype hrequired hannotations
    subst hkey hname hrequired hannotations
    exact .cons htype ih

mutual

/-- The normal form of a type stands for what the type stands for. -/
theorem IsNormalOf.denotes {t t' : SymbolTable} (h : t'.IsNormalOf t) {ns : String} :
    {type : TypeExpr} → {a : ResolvedType} → t.Denotes ns type a → t'.Denotes ns type.normal a
  | _, _, .builtin hp => .builtin ((h.lookupType_eq ns _).trans hp)
  | _, _, .entityType hp => .entityType ((h.lookupType_eq ns _).trans hp)
  | _, _, .commonType hp hd ha =>
    .commonType ((h.lookupType_eq ns _).trans hp) (h.commonType?_eq hd) (h.denotes ha)
  | _, _, .entity hp => .entity ((h.lookupEntityType_eq ns _).trans hp)
  | _, _, .set ha => .set (h.denotes ha)
  | _, _, .record hr => .record (h.denotesRecord hr)

theorem IsNormalOf.denotesRecord {t t' : SymbolTable} (h : t'.IsNormalOf t) {ns : String} :
    {r : Record TypeExpr} → {fields : Fields} → t.DenotesRecord ns r fields →
      t'.DenotesRecord ns (Record.normal r) fields
  | _, _, @DenotesRecord.mk _ _ attributes comments fields hall _ => by
    -- Both sides are sorted by the same keys, so attributes and fields stay side by side.
    have hentries := Dict.forall₂_ofList (fun _ _ hef => hef.key) (h.denotesAll hall)
    have hrecord := @DenotesRecord.mk t' ns _ {} _ (denotesAll_of_forall₂ hentries)
      (nodup_normal_names ⟨attributes, comments⟩)
    rwa [Dict.ofList_entries] at hrecord

theorem IsNormalOf.denotesAll {t t' : SymbolTable} (h : t'.IsNormalOf t) {ns : String} :
    {attributes : List (Attribute TypeExpr)} → {fields : Fields} →
      t.DenotesAll ns attributes fields →
        List.Forall₂ (t'.AttributeOf ns) (normalAttributes attributes) fields
  | _, _, .nil _ => .nil
  | _, _, .cons ha hrest =>
    .cons ⟨rfl, rfl, h.denotes ha, rfl, (annotationDict_normal _).symm⟩ (h.denotesAll hrest)

end

/-! ## Well-bound types -/

theorem bindsAll_iff {t : SymbolTable} {ns : String} {attributes : List (Attribute TypeExpr)} :
    t.BindsAll ns attributes ↔ ∀ a ∈ attributes, t.Binds ns a.type := by
  induction attributes with
  | nil => exact ⟨nofun, fun _ => trivial⟩
  | cons a rest ih =>
    rw [List.forall_mem_cons, ← ih]
    rfl

theorem mentionsAny_iff {t : SymbolTable} {ns name : String}
    {attributes : List (Attribute TypeExpr)} :
    t.MentionsAny ns name attributes ↔ ∃ a ∈ attributes, t.Mentions ns name a.type := by
  induction attributes with
  | nil => exact ⟨False.elim, nofun⟩
  | cons a rest ih =>
    rw [List.exists_mem_cons_iff, ← ih]
    rfl

namespace IsNormalOf

variable {t t' : SymbolTable}

mutual

/-- The normal form of a type is well bound exactly if the type is. -/
theorem binds_iff (h : t'.IsNormalOf t) {ns : String} :
    (type : TypeExpr) → type.Tidy → (t'.Binds ns type.normal ↔ t.Binds ns type)
  | .path p, _ => by
    show (∃ b, t'.lookupType ns p = .ok b) ↔ _
    rw [h.lookupType_eq]
    rfl
  | .entity p, _ => by
    show (∃ name, t'.lookupEntityType ns p = .ok name) ↔ _
    rw [h.lookupEntityType_eq]
    rfl
  | .set element, ht => h.binds_iff element ht
  | .record r, ht => h.bindsRecord_iff r ht
termination_by type => sizeOf type

theorem bindsRecord_iff (h : t'.IsNormalOf t) {ns : String} :
    (r : Record TypeExpr) → Record.Tidy r →
      (t'.BindsRecord ns (Record.normal r) ↔ t.BindsRecord ns r)
  | ⟨attributes, comments⟩, ⟨ht, hnodup⟩ => by
    show t'.BindsAll ns (Record.normal ⟨attributes, comments⟩).attributes ∧
      ((Record.normal ⟨attributes, comments⟩).attributes.map Attribute.name).Nodup ↔
      t.BindsAll ns attributes ∧ (attributes.map Attribute.name).Nodup
    rw [bindsAll_iff]
    simp only [mem_normal_attributes hnodup, nodup_normal_names, hnodup, and_true]
    rw [← bindsAll_iff]
    exact h.bindsAll_normal_iff attributes ht
termination_by r => sizeOf r

theorem bindsAll_normal_iff (h : t'.IsNormalOf t) {ns : String} :
    (attributes : List (Attribute TypeExpr)) → TidyAttributes attributes →
      (t'.BindsAll ns ((normalAttributes attributes).map Prod.snd) ↔ t.BindsAll ns attributes)
  | [], _ => Iff.rfl
  | ⟨_, type, _, _, _⟩ :: rest, ⟨ht, hrest⟩ =>
    and_congr (h.binds_iff type ht) (h.bindsAll_normal_iff rest hrest)
termination_by attributes => sizeOf attributes

end

mutual

/-- The normal form of a type mentions the common types that the type mentions. -/
theorem mentions_iff (h : t'.IsNormalOf t) {ns name : String} :
    (type : TypeExpr) → type.Tidy → (t'.Mentions ns name type.normal ↔ t.Mentions ns name type)
  | .path p, _ => by
    show t'.lookupType ns p = .ok (.commonType name) ↔ _
    rw [h.lookupType_eq]
    rfl
  | .entity p, _ => Iff.rfl
  | .set element, ht => h.mentions_iff element ht
  | .record r, ht => h.mentionsIn_iff r ht
termination_by type => sizeOf type

theorem mentionsIn_iff (h : t'.IsNormalOf t) {ns name : String} :
    (r : Record TypeExpr) → Record.Tidy r →
      (t'.MentionsIn ns name (Record.normal r) ↔ t.MentionsIn ns name r)
  | ⟨attributes, comments⟩, ⟨ht, hnodup⟩ => by
    show t'.MentionsAny ns name (Record.normal ⟨attributes, comments⟩).attributes ↔
      t.MentionsAny ns name attributes
    rw [mentionsAny_iff]
    simp only [mem_normal_attributes hnodup]
    rw [← mentionsAny_iff]
    exact h.mentionsAny_normal_iff attributes ht
termination_by r => sizeOf r

theorem mentionsAny_normal_iff (h : t'.IsNormalOf t) {ns name : String} :
    (attributes : List (Attribute TypeExpr)) → TidyAttributes attributes →
      (t'.MentionsAny ns name ((normalAttributes attributes).map Prod.snd) ↔
        t.MentionsAny ns name attributes)
  | [], _ => Iff.rfl
  | ⟨_, type, _, _, _⟩ :: rest, ⟨ht, hrest⟩ =>
    or_congr (h.mentions_iff type ht) (h.mentionsAny_normal_iff rest hrest)
termination_by attributes => sizeOf attributes

end

/-- Common types refer to each other as their normal forms do. -/
theorem refers_eq (h : t'.IsNormalOf t)
    (ht : ∀ name d, t.commonType? name = some d → d.decl.type.Tidy) : t'.Refers = t.Refers := by
  funext a b
  apply propext
  unfold Refers
  rw [h.commonTypes]
  constructor
  · rintro ⟨d', hd', hb⟩
    obtain ⟨d, hd, rfl⟩ := Option.map_eq_some_iff.1 hd'
    exact ⟨d, hd, (h.mentions_iff d.decl.type (ht a d hd)).1 hb⟩
  · rintro ⟨d, hd, hb⟩
    rw [hd]
    exact ⟨_, rfl, (h.mentions_iff d.decl.type (ht a d hd)).2 hb⟩

theorem isRecord_normal (h : t'.IsNormalOf t) {ns : String} {type : TypeExpr}
    (ht : t.IsRecord ns type) : t'.IsRecord ns type.normal := by
  induction ht with
  | record ns r => exact .record ns _
  | commonType hp hd _ ih =>
    exact .commonType ((h.lookupType_eq _ _).trans hp) (h.commonType?_eq hd) ih

/-- The normal form of a type is a record exactly if the type is. -/
theorem isRecord_iff (h : t'.IsNormalOf t) {ns : String} {type : TypeExpr} :
    t'.IsRecord ns type.normal ↔ t.IsRecord ns type := by
  refine ⟨fun ht => ?_, h.isRecord_normal⟩
  generalize hnormal : type.normal = normal at ht
  induction ht generalizing type with
  | record ns r =>
    cases type with
    | record r' => exact .record ns r'
    | _ => cases hnormal
  | commonType hp hd _ ih =>
    cases type with
    | path p =>
      cases hnormal
      rw [h.commonTypes] at hd
      obtain ⟨d, hdecl, rfl⟩ := Option.map_eq_some_iff.1 hd
      have hbody : t.IsRecord d.ns d.decl.type := ih rfl
      exact .commonType ((h.lookupType_eq _ _).symm.trans hp) hdecl hbody
    | _ => cases hnormal

end IsNormalOf

end SymbolTable

end CedarSchema
