import CedarSchema.Proofs.Document.Meaning
import CedarSchema.Proofs.Document.Spelling
import CedarSchema.Proofs.Document.Written

/-
  Whether text can spell what a schema refers to. In a schema that resolves a reference finds
  something declared or built in, and it is spelled like the full name of that, or like its end. So
  if text can spell the names that a schema declares, it can spell the references as well; all that
  has to be looked at besides are the keys of annotations (`Schema.writableNames_of_declared`).
-/

namespace CedarSchema

open Text SymbolTable

/-! ## Full names -/

/-- The name is a path of identifiers. -/
def WritableName (name : String) : Prop := (Path.ofText name).Writable

theorem Path.Spelled.writable_iff {p : Path} (h : p.Spelled) :
    p.Writable ↔ WritableName p.text := by
  unfold Path.Spelled at h
  rw [WritableName, h]

theorem Path.ofText_of_isIdent {name : String} (h : isIdent name = true) :
    ofText name = ⟨[name]⟩ :=
  ofText_of_noColon (ne_colon_of_isIdent h)

theorem writableName_of_isIdent {name : String} (h : isIdent name = true) :
    WritableName name := by
  unfold WritableName
  rw [Path.ofText_of_isIdent h]
  exact ⟨List.cons_ne_nil _ _, List.forall_mem_singleton.2 h⟩

theorem Path.ofText_cons {segment : String} (h : isIdent segment = true) (name : String) :
    ofText (segment ++ "::" ++ name) = ⟨segment :: (ofText name).segments⟩ :=
  ofText_cons_of_noColon (ne_colon_of_isIdent h) name

/-- The path of a name in a namespace is that of the namespace and then that of the name. -/
theorem Path.ofText_append {ns : String} (h : WritableName ns) (name : String) :
    ofText (ns ++ "::" ++ name) = ⟨(ofText ns).segments ++ (ofText name).segments⟩ := by
  have hsegments (segments : List String) (hne : segments ≠ [])
      (hidents : ∀ s ∈ segments, isIdent s = true) :
      ofText (join "::" segments ++ "::" ++ name) = ⟨segments ++ (ofText name).segments⟩ := by
    induction segments with
    | nil => exact (hne rfl).elim
    | cons s rest ih =>
      obtain ⟨hs, hrest⟩ := List.forall_mem_cons.1 hidents
      by_cases hlast : rest = []
      · subst hlast
        exact ofText_cons hs name
      · have hassoc : join "::" (s :: rest) ++ "::" ++ name =
            s ++ "::" ++ (join "::" rest ++ "::" ++ name) := by
          simp only [join_cons hlast, String.append_assoc]
        rw [hassoc, ofText_cons hs, ih hlast hrest, List.cons_append]
  have hns : join "::" (ofText ns).segments = ns := text_ofText ns
  have happend := hsegments _ h.nonempty h.segments
  rwa [hns] at happend

/-- In a namespace that text can spell, text can spell the full name if it can spell the name. -/
theorem writableName_qualify {ns : String} (hns : ns ≠ "" → WritableName ns) (name : String) :
    WritableName (qualify ns name) ↔ WritableName name := by
  unfold qualify
  split
  · exact Iff.rfl
  · rename_i hroot
    unfold WritableName
    rw [Path.ofText_append (hns hroot)]
    constructor
    · rintro ⟨-, hsegments⟩
      refine ⟨?_, fun s hs => hsegments s (List.mem_append_right _ hs)⟩
      exact Path.segments_ofText_ne_nil name
    · rintro ⟨hne, hsegments⟩
      exact ⟨List.append_ne_nil_of_right_ne_nil _ hne,
        List.forall_mem_append.2 ⟨(hns hroot).segments, hsegments⟩⟩

theorem isIdent_of_builtinType {name : String} {type : ResolvedType}
    (h : builtinType name = some type) : isIdent name = true := by
  unfold builtinType at h
  split at h
  all_goals first | decide | cases h

/-- Behind the segment for built-in types stands the name of one. -/
theorem writableName_of_builtin {p : Path} {type : ResolvedType} (hqualified : p.isQualified = true)
    (hhead : p.segments.head? = some builtinNamespace)
    (htype : builtinType (join "::" p.segments.tail) = some type) : WritableName p.text := by
  obtain ⟨segments⟩ := p
  cases segments with
  | nil => cases hhead
  | cons s rest =>
    cases hhead
    have hrest : rest ≠ [] := by
      rintro rfl
      simp [Path.isQualified] at hqualified
    have htext : Path.text ⟨builtinNamespace :: rest⟩ =
        qualify builtinNamespace (join "::" rest) := join_cons hrest
    have hbuiltin : WritableName builtinNamespace := writableName_of_isIdent (by decide)
    rw [htext, writableName_qualify fun _ => hbuiltin]
    exact writableName_of_isIdent (isIdent_of_builtinType htype)

/-! ## References -/

namespace SymbolTable

/-- Text can spell the full names of all types that are declared. -/
structure WritableTypes (t : SymbolTable) : Prop where
  commonTypes : ∀ name, t.hasCommonType name = true → WritableName name
  entityTypes : ∀ name, t.hasEntityType name = true → WritableName name

section

variable {t : SymbolTable} {ns name : String} {p : Path} (h : t.WritableTypes)

include h

theorem WritableTypes.of_bindFull {b : Binding} (hb : t.bindFull name = some b) :
    WritableName name := by
  rcases bindFull_cases hb with ⟨hcommon, -⟩ | ⟨hentity, -⟩
  · exact h.commonTypes name hcommon
  · exact h.entityTypes name hentity

variable (hns : ns ≠ "" → WritableName ns)

include hns

theorem WritableTypes.of_bindUnqualified {b : Binding}
    (hb : t.bindUnqualified ns name = some b) : WritableName name := by
  rcases bindUnqualified_cases hb with hb | ⟨-, hb | ⟨type, htype, -⟩⟩
  · exact (writableName_qualify hns name).1 (h.of_bindFull hb)
  · exact h.of_bindFull hb
  · exact writableName_of_isIdent (isIdent_of_builtinType htype)

/-- What a reference to a type finds in the namespace `ns` shows how it is spelled. -/
theorem WritableTypes.of_lookupType {b : Binding} (hp : p.Spelled)
    (hb : t.lookupType ns p = .ok b) : p.Writable := by
  rw [hp.writable_iff]
  rcases lookupType_cases hb with ⟨hqualified, hhead, type, htype, -⟩ | ⟨-, -, hfull⟩ |
    ⟨hqualified, hbound⟩
  · exact writableName_of_builtin hqualified hhead htype
  · exact h.of_bindFull hfull
  · rw [← Path.basename_eq_text hqualified]
    exact h.of_bindUnqualified hns hbound

/-- What a reference to an entity type finds shows how it is spelled. -/
theorem WritableTypes.of_lookupEntityType (hp : p.Spelled)
    (hname : t.lookupEntityType ns p = .ok name) : p.Writable := by
  rw [hp.writable_iff]
  unfold lookupEntityType at hname
  split at hname
  · rename_i candidate hfound
    have hwritable := h.entityTypes candidate (List.find?_some hfound)
    have hmem := List.mem_of_find?_eq_some hfound
    unfold entityCandidates at hmem
    split at hmem
    · rwa [List.mem_singleton.1 hmem] at hwritable
    · rename_i hqualified
      rw [← Path.basename_eq_text (Bool.eq_false_iff.2 hqualified)]
      rcases List.mem_pair.1 hmem with rfl | rfl
      · exact (writableName_qualify hns _).1 hwritable
      · exact hwritable
  · cases hname

end

/-- In the root namespace a full name finds the entity type that bears it. -/
theorem lookupEntityType_ofText {t : SymbolTable} {name : String}
    (h : t.hasEntityType name = true) : t.lookupEntityType "" (Path.ofText name) = .ok name := by
  have hcandidates : ∃ rest, entityCandidates "" (Path.ofText name) = name :: rest := by
    unfold entityCandidates
    split
    · exact ⟨[], by rw [Path.text_ofText]⟩
    · rename_i hqualified
      rw [Path.basename_eq_text (Bool.eq_false_iff.2 hqualified), Path.text_ofText]
      exact ⟨[name], rfl⟩
  obtain ⟨rest, hrest⟩ := hcandidates
  rw [lookupEntityType, hrest, List.find?_cons_of_pos h]

end SymbolTable

/-! ## Types -/

mutual

/-- The keys of all annotations in a type. -/
def TypeExpr.annotationKeys : TypeExpr → List String
  | .path _ => []
  | .entity _ => []
  | .set element => element.annotationKeys
  | .record r => Record.annotationKeys r
termination_by structural type => type

def Record.annotationKeys : Record TypeExpr → List String
  | ⟨attributes, _⟩ => annotationKeysOf attributes
termination_by structural r => r

def annotationKeysOf : List (Attribute TypeExpr) → List String
  | [] => []
  | ⟨_, type, _, annotations, _⟩ :: rest =>
    annotations.map Annotation.key ++ type.annotationKeys ++ annotationKeysOf rest
termination_by structural attributes => attributes

end

namespace SymbolTable

section

variable {t : SymbolTable} {ns : String}

mutual

/-- If all that a type names is found, text can spell the type but for the keys of annotations. -/
theorem WritableTypes.of_binds (h : t.WritableTypes) (hns : ns ≠ "" → WritableName ns) :
    (type : TypeExpr) → type.Tidy → t.Binds ns type →
      (∀ key ∈ type.annotationKeys, isIdent key = true) → type.WritableNames
  | .path _, hp, ⟨_, hb⟩, _ => h.of_lookupType hns hp hb
  | .entity _, hp, ⟨_, hname⟩, _ => h.of_lookupEntityType hns hp hname
  | .set element, htidy, hbinds, hkeys => h.of_binds hns element htidy hbinds hkeys
  | .record r, htidy, hbinds, hkeys => h.of_bindsRecord hns r htidy hbinds hkeys
termination_by structural type => type

theorem WritableTypes.of_bindsRecord (h : t.WritableTypes) (hns : ns ≠ "" → WritableName ns) :
    (r : Record TypeExpr) → Record.Tidy r → t.BindsRecord ns r →
      (∀ key ∈ Record.annotationKeys r, isIdent key = true) → Record.WritableNames r
  | ⟨attributes, _⟩, ⟨htidy, _⟩, ⟨hbinds, _⟩, hkeys =>
    h.of_bindsAll hns attributes htidy hbinds hkeys
termination_by structural r => r

theorem WritableTypes.of_bindsAll (h : t.WritableTypes) (hns : ns ≠ "" → WritableName ns) :
    (attributes : List (Attribute TypeExpr)) → TidyAttributes attributes →
      t.BindsAll ns attributes → (∀ key ∈ annotationKeysOf attributes, isIdent key = true) →
        AllWritableNames attributes
  | [], _, _, _ => trivial
  | ⟨_, type, _, _, _⟩ :: rest, ⟨htype, hrest⟩, ⟨hbinds, hbindsRest⟩, hkeys => by
    obtain ⟨hfirst, hkeysRest⟩ := List.forall_mem_append.1 hkeys
    obtain ⟨hown, hinner⟩ := List.forall_mem_append.1 hfirst
    exact ⟨⟨h.of_binds hns type htype hbinds hinner, List.forall_mem_map.1 hown⟩,
      h.of_bindsAll hns rest hrest hbindsRest hkeysRest⟩
termination_by structural attributes => attributes

end

end

end SymbolTable

/-! ## Declarations -/

namespace Decl

/-- The keys of all annotations in a declaration. -/
def annotationKeys (d : Decl) : List String :=
  d.annotations.map Annotation.key ++ d.types.flatMap TypeExpr.annotationKeys

/-- The paths in a tidy declaration are spelled by their texts. -/
theorem Tidy.entityRefs {d : Decl} (h : d.Tidy) : ∀ p ∈ d.entityRefs, p.Spelled := by
  cases d with
  | entity d => exact EntityDecl.Tidy.parents h
  | action d =>
    refine Document.forall_mem_getD fun refs hrefs => ?_
    obtain ⟨a, ha, rfl⟩ := Option.map_eq_some_iff.1 hrefs
    have happliesTo := ActionDecl.Tidy.appliesTo h a ha
    exact List.forall_mem_append.2 ⟨Document.forall_mem_getD happliesTo.principals,
      Document.forall_mem_getD happliesTo.resources⟩
  | _ => exact List.forall_mem_nil _

theorem Tidy.actionRefs {d : Decl} (h : d.Tidy) :
    ∀ r ∈ d.actionRefs, ∀ p ∈ r.type, p.Spelled := by
  cases d with
  | action d => exact ActionDecl.Tidy.parents h
  | _ => exact List.forall_mem_nil _

end Decl

namespace Scoped

variable (d : Scoped Decl) {name : String}

theorem exists_of_mem_entityTypeNames (h : name ∈ d.entityTypeNames) :
    ∃ n ∈ d.decl.typeNames, name = qualify d.ns n := by
  obtain ⟨ns, d⟩ := d
  cases d with
  | entity d =>
    simp only [entityTypeNames, entityNames, enumNames, List.append_nil] at h
    obtain ⟨n, hn, rfl⟩ := List.mem_map.1 h
    exact ⟨n, hn, rfl⟩
  | enum d =>
    simp only [entityTypeNames, entityNames, enumNames, List.nil_append] at h
    obtain ⟨n, hn, rfl⟩ := List.mem_map.1 h
    exact ⟨n, hn, rfl⟩
  | action d => cases h
  | commonType d => cases h

theorem exists_of_mem_commonTypes (h : name ∈ d.commonTypes.map Prod.fst) :
    ∃ n ∈ d.decl.typeNames, name = qualify d.ns n := by
  obtain ⟨ns, d⟩ := d
  cases d with
  | commonType d => exact ⟨d.name, List.mem_singleton.2 rfl, List.mem_singleton.1 h⟩
  | _ => cases h

end Scoped

/-! ## Schemas -/

namespace Schema

variable {s : Schema}

theorem hasEntityType_table_iff {name : String} :
    s.table.hasEntityType name = true ↔ ∃ d ∈ s.declarations, name ∈ d.entityTypeNames := by
  rw [hasEntityType_iff, mem_table_entityTypes]
  exact List.mem_flatMap

theorem hasCommonType_table_iff {name : String} : s.table.hasCommonType name = true ↔
    ∃ d ∈ s.declarations, name ∈ d.commonTypes.map Prod.fst := by
  have hperm : s.table.commonTypes.Perm (s.declarations.flatMap Scoped.commonTypes) :=
    s.scopedDecls_perm.flatMap_right _
  rw [hasCommonType_iff, (hperm.map _).mem_iff, List.map_flatMap, List.mem_flatMap]

theorem ns_mem_keys_namespaces {d : Scoped Decl} (hd : d ∈ s.declarations) :
    d.ns ∈ s.namespaces.keys := by
  obtain ⟨i, hi, hd⟩ := List.mem_flatMap.1 hd
  obtain ⟨d, -, rfl⟩ := List.mem_map.1 hd
  exact mem_keys_namespaces.2 ⟨i, hi, rfl⟩

/-- Text can spell the names of all namespaces and of all types that are declared. Actions may have
any names. -/
structure DeclaresWritable (s : Schema) : Prop where
  namespaces : ∀ ns ∈ s.namespaces.keys, ns ≠ "" → WritableName ns
  types : ∀ d ∈ s.declarations, ∀ n ∈ d.decl.typeNames, isIdent n = true

namespace DeclaresWritable

variable (h : s.DeclaresWritable)

include h

theorem ns {d : Scoped Decl} (hd : d ∈ s.declarations) : d.ns ≠ "" → WritableName d.ns :=
  h.namespaces d.ns (ns_mem_keys_namespaces hd)

theorem qualified {d : Scoped Decl} (hd : d ∈ s.declarations) {n : String}
    (hn : n ∈ d.decl.typeNames) : WritableName (qualify d.ns n) :=
  (writableName_qualify (h.ns hd) n).2 (writableName_of_isIdent (h.types d hd n hn))

theorem writableTypes : s.table.WritableTypes := by
  constructor
  · intro name hname
    obtain ⟨d, hd, hname⟩ := hasCommonType_table_iff.1 hname
    obtain ⟨n, hn, rfl⟩ := d.exists_of_mem_commonTypes hname
    exact h.qualified hd hn
  · intro name hname
    obtain ⟨d, hd, hname⟩ := hasEntityType_table_iff.1 hname
    obtain ⟨n, hn, rfl⟩ := d.exists_of_mem_entityTypeNames hname
    exact h.qualified hd hn

/-- A parent of a type is declared under the type of the actions of some namespace. -/
theorem actionRef {d : Scoped Decl} (hd : d ∈ s.declarations) (htidy : d.decl.Tidy)
    (hparents : s.DeclaresParents) {r : ActionRef} (hr : r ∈ d.decl.actionRefs) :
    r.Writable := by
  intro p hp
  obtain ⟨ns, decl⟩ := d
  rw [(Decl.Tidy.actionRefs htidy r hr p hp).writable_iff]
  cases decl with
  | action a =>
    have huid : (⟨p.text, r.id⟩ : EntityUid) ∈ s.actionUids := by
      refine hparents _ hd _ (List.mem_map.2 ⟨r, hr, ?_⟩)
      rw [parentUid, hp]
    obtain ⟨⟨ns', decl'⟩, hd', huid⟩ := List.mem_flatMap.1 huid
    cases decl' with
    | action a' =>
      obtain ⟨n, -, hn⟩ := List.mem_map.1 huid
      have htext : qualify ns' "Action" = p.text := congrArg EntityUid.type hn
      rw [← htext, writableName_qualify (h.ns hd')]
      exact writableName_of_isIdent (by decide)
    | _ => cases huid
  | _ => cases hr

end DeclaresWritable

/-- The keys of all annotations in a schema. -/
def annotationKeys (s : Schema) : List String :=
  (s.items.flatMap fun
    | .block b => b.annotations.map Annotation.key
    | .decl _ => []) ++
  s.declarations.flatMap fun d => d.decl.annotationKeys

/-- Text can spell all names in a schema that was read from a document and resolves, if it can spell
the names that are declared and the keys of annotations. -/
theorem writableNames_of_declared (hread : s.Read TypeExpr.Tidy) (hbound : s.WellBound)
    (hparents : s.DeclaresParents) (h : s.DeclaresWritable)
    (hkeys : ∀ key ∈ s.annotationKeys, isIdent key = true) : s.WritableNames := by
  obtain ⟨hblocks, hdecls⟩ := List.forall_mem_append.1 hkeys
  have htidy : s.Tidy := fun i hi => (hread.items i hi).tidy
  refine ⟨fun b hb => ?_, fun b hb a ha => ?_, fun d hd => ?_⟩
  · have hns := h.namespaces b.path.text (mem_keys_namespaces.2 ⟨_, hb, rfl⟩)
    cases hread.items _ hb with
    | block hname =>
      rw [(Path.spelled_ofText _).writable_iff]
      refine hns ?_
      rwa [Path.text_ofText]
  · exact hblocks a.key (List.mem_flatMap.2 ⟨_, hb, List.mem_map_of_mem ha⟩)
  · have hd' := htidy.of_mem_declarations hd
    have hkeys : ∀ key ∈ d.decl.annotationKeys, isIdent key = true :=
      fun key hkey => hdecls key (List.mem_flatMap.2 ⟨d, hd, hkey⟩)
    obtain ⟨hown, hinner⟩ := List.forall_mem_append.1 hkeys
    refine ⟨h.types d hd, fun p hp => ?_, fun r hr => h.actionRef hd hd' hparents hr,
      fun type htype => ?_, List.forall_mem_map.1 hown⟩
    · obtain ⟨name, hname⟩ := hbound.entityRefs d hd p hp
      exact h.writableTypes.of_lookupEntityType (h.ns hd) (hd'.entityRefs p hp) hname
    · have hkeys : ∀ key ∈ type.annotationKeys, isIdent key = true :=
        fun key hkey => hinner key (List.mem_flatMap.2 ⟨type, htype, hkey⟩)
      exact h.writableTypes.of_binds (h.ns hd) type (hd'.types type htype)
        (hbound.types d hd type htype) hkeys

end Schema

end CedarSchema
