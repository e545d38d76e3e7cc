import CedarSchema.Proofs.Document.Tidy
import CedarSchema.Proofs.Resolve.Criterion
import CedarSchema.Proofs.Resolve.Normal
import Mathlib.Data.List.Nodup

/-
  The declarations of a normal form. If no name is declared twice, nothing is lost: each declaration
  is there once for each of its names, in normal form, and nothing else is
  (`Schema.normal_declarations_perm`). The symbol table of the normal form then declares the same
  names. If names are declared twice, a reserved name is still there.
-/

namespace CedarSchema

open SymbolTable

/-- What a declaration declares under each of its names. -/
def Decl.normals : Decl → List Decl
  | .entity d => d.names.map fun n => .entity (d.normal n)
  | .enum d => d.names.map fun n => .enum (d.normal n)
  | .action d => d.names.map fun n => .action (d.normal n)
  | .commonType d => [.commonType d.normal]

def Scoped.normals (d : Scoped Decl) : List (Scoped Decl) := d.decl.normals.map (Scoped.mk d.ns)

theorem Decl.normals_eq (d : Decl) :
    (d.commonTypeEntries ++ d.entityTypeEntries ++ d.actionEntries).map Prod.snd = d.normals := by
  cases d <;> simp [commonTypeEntries, entityTypeEntries, actionEntries, normals]

/-- Without repeated names the entries of some declarations are all kept. -/
theorem values_ofList_flatMap_perm {entriesOf : Decl → List (String × Decl)} {decls : List Decl}
    (h : ((decls.flatMap entriesOf).map Prod.fst).Nodup) :
    (Dict.ofList (decls.flatMap entriesOf)).values.Perm
      (decls.flatMap fun d => (entriesOf d).map Prod.snd) := by
  rw [← List.map_flatMap]
  exact (Dict.entries_ofList_perm h).map Prod.snd

theorem normalDecls_perm {decls : List Decl}
    (hcommon : ((decls.flatMap Decl.commonTypeEntries).map Prod.fst).Nodup)
    (hentity : ((decls.flatMap Decl.entityTypeEntries).map Prod.fst).Nodup)
    (haction : ((decls.flatMap Decl.actionEntries).map Prod.fst).Nodup) :
    (normalDecls decls).Perm (decls.flatMap Decl.normals) := by
  refine (((values_ofList_flatMap_perm hcommon).append (values_ofList_flatMap_perm hentity)).append
    (values_ofList_flatMap_perm haction)).trans ?_
  refine ((List.flatMap_append_perm decls _ _).append_right _).trans ?_
  refine (List.flatMap_append_perm decls _ _).trans (.of_eq ?_)
  refine congrArg decls.flatMap (funext fun d => ?_)
  rw [← d.normals_eq, List.map_append, List.map_append]

namespace Schema

variable {s : Schema}

theorem normal_declarations (s : Schema) : s.normal.declarations =
    s.namespaces.entries.flatMap fun e => (normalDecls e.2).map (Scoped.mk e.1) := by
  refine flatMap_flatMap_eq (fun e => ?_) s.namespaces.entries
  obtain ⟨ns, decls⟩ := e
  dsimp only
  rw [normalItems]
  split
  · rename_i hns
    rw [hns, List.flatMap_map]
    exact List.map_eq_flatMap.symm
  · rw [List.flatMap_singleton]
    show (normalDecls decls).map (Scoped.mk (Path.ofText ns).text) = _
    rw [Path.text_ofText]

/-- Names that are distinct in the whole schema are distinct in each namespace; `f` makes a full
name of a namespace and a name. -/
theorem nodup_keys_of_namespace {κ β : Type} {f : String → String → κ}
    {entriesOf : Decl → List (String × β)} {names : Scoped Decl → List κ}
    (hnames : ∀ ns d, names ⟨ns, d⟩ = (entriesOf d).map fun e => f ns e.1)
    (h : (s.scopedDecls.flatMap names).Nodup) {e : String × List Decl}
    (he : e ∈ s.namespaces.entries) : ((e.2.flatMap entriesOf).map Prod.fst).Nodup := by
  have hsub : ((e.2.map (Scoped.mk e.1)).flatMap names).Sublist (s.scopedDecls.flatMap names) := by
    obtain ⟨l, r, hlr⟩ := List.append_of_mem he
    rw [scopedDecls, hlr, List.flatMap_append, List.flatMap_cons, List.flatMap_append,
      List.flatMap_append]
    exact (List.sublist_append_left _ _).trans (List.sublist_append_right _ _)
  have hnodup := h.sublist hsub
  have heq : (e.2.map (Scoped.mk e.1)).flatMap names =
      ((e.2.flatMap entriesOf).map Prod.fst).map (f e.1) := by
    rw [List.flatMap_map, List.map_map, List.map_flatMap]
    exact congrArg e.2.flatMap (funext fun d => hnames e.1 d)
  rw [heq] at hnodup
  exact List.Nodup.of_map _ hnodup

/-- If no name is declared twice, the normal form declares everything under each of its names. -/
theorem normal_declarations_perm (h : s.table.Distinct) :
    s.normal.declarations.Perm (s.declarations.flatMap Scoped.normals) := by
  have hdecls {e : String × List Decl} (he : e ∈ s.namespaces.entries) :
      (normalDecls e.2).Perm (e.2.flatMap Decl.normals) := by
    refine normalDecls_perm ?_ ?_ ?_
    · have hcommon : (s.scopedDecls.flatMap fun d => d.commonTypes.map Prod.fst).Nodup := by
        rw [← List.map_flatMap]
        exact h.commonTypes
      refine nodup_keys_of_namespace (f := qualify) ?_ hcommon he
      intro ns d
      cases d <;> rfl
    · refine nodup_keys_of_namespace (f := qualify) ?_ h.entityTypes he
      intro ns d
      cases d <;> simp [Scoped.entityTypeNames, Scoped.entityNames, Scoped.enumNames,
        Decl.entityTypeEntries]
    · refine nodup_keys_of_namespace (f := fun ns => EntityUid.mk (actionType ns)) ?_ h.actionUids
        he
      intro ns d
      cases d <;> simp [Scoped.actionUids, Decl.actionEntries]
  rw [normal_declarations]
  refine (List.Perm.flatMap_left _ fun e he => (hdecls he).map (Scoped.mk e.1)).trans ?_
  refine .trans (.of_eq ?_) (s.scopedDecls_perm.flatMap_right Scoped.normals)
  refine (flatMap_flatMap_eq (fun e => ?_) s.namespaces.entries).symm
  obtain ⟨ns, decls⟩ := e
  rw [List.flatMap_map, List.map_flatMap]
  rfl

theorem mem_normal_declarations (h : s.table.Distinct) {ns : String} {d' : Decl} :
    ⟨ns, d'⟩ ∈ s.normal.declarations ↔ ∃ d, ⟨ns, d⟩ ∈ s.declarations ∧ d' ∈ d.normals := by
  rw [(normal_declarations_perm h).mem_iff, List.mem_flatMap]
  constructor
  · rintro ⟨⟨ns, d⟩, hd, hd'⟩
    obtain ⟨d', hd', ⟨⟩⟩ := List.mem_map.1 hd'
    exact ⟨d, hd, hd'⟩
  · rintro ⟨d, hd, hd'⟩
    exact ⟨_, hd, List.mem_map_of_mem hd'⟩

/-! ## Names -/

/-- What each declaration declares under all its names together the normal form declares too. -/
theorem normal_flatMap_perm {κ : Type} {names : Scoped Decl → List κ} (h : s.table.Distinct)
    (hnames : ∀ d : Scoped Decl, d.normals.flatMap names = names d) :
    (s.normal.declarations.flatMap names).Perm (s.declarations.flatMap names) :=
  ((normal_declarations_perm h).flatMap_right names).trans (.of_eq (flatMap_flatMap_eq hnames _))

theorem normal_entityTypeNames_perm (h : s.table.Distinct) :
    s.normal.entityTypeNames.Perm s.entityTypeNames := by
  refine normal_flatMap_perm h fun ⟨ns, d⟩ => ?_
  cases d <;> simp [Scoped.normals, Decl.normals, Scoped.entityTypeNames, Scoped.entityNames,
    Scoped.enumNames, EntityDecl.normal, EnumDecl.normal, List.flatMap_map, ← List.map_eq_flatMap]

theorem normal_actionUids_perm (h : s.table.Distinct) :
    s.normal.actionUids.Perm s.actionUids := by
  refine normal_flatMap_perm h fun ⟨ns, d⟩ => ?_
  cases d <;> simp [Scoped.normals, Decl.normals, Scoped.actionUids, ActionDecl.normal,
    List.flatMap_map, ← List.map_eq_flatMap]

theorem normal_commonTypeNames_perm (h : s.table.Distinct) :
    s.normal.commonTypeNames.Perm s.commonTypeNames := by
  rw [commonTypeNames, commonTypeNames, List.map_flatMap, List.map_flatMap]
  refine normal_flatMap_perm h fun ⟨ns, d⟩ => ?_
  cases d <;> simp [Scoped.normals, Decl.normals, Scoped.commonTypes, CommonTypeDecl.normal]

/-! ## Declarations of each kind -/

theorem mem_normal_commonType (h : s.table.Distinct) {ns : String} {c' : CommonTypeDecl} :
    ⟨ns, .commonType c'⟩ ∈ s.normal.declarations ↔
      ∃ c, ⟨ns, .commonType c⟩ ∈ s.declarations ∧ c' = c.normal := by
  rw [mem_normal_declarations h]
  constructor
  · rintro ⟨d, hd, hd'⟩
    cases d <;> simp [Decl.normals] at hd'
    exact ⟨_, hd, hd'⟩
  · rintro ⟨c, hc, rfl⟩
    exact ⟨_, hc, List.mem_singleton.2 rfl⟩

/-- Declarations of one kind, each with one of its names: `names` are the names of a declaration and
`normal` is its normal form under one of them. -/
theorem exists_normal (h : s.table.Distinct) {δ : Type} (kind : δ → Decl) (names : δ → List String)
    (normal : δ → String → δ) (hkind : ∀ d d', kind d' ∈ d.normals ↔
      ∃ e n, d = kind e ∧ n ∈ names e ∧ d' = normal e n)
    (hnames : ∀ d n, names (normal d n) = [n]) {ns : String} {Q : δ → String → Prop} :
    (∃ d n, ⟨ns, kind d⟩ ∈ s.normal.declarations ∧ n ∈ names d ∧ Q d n) ↔
      ∃ d n, ⟨ns, kind d⟩ ∈ s.declarations ∧ n ∈ names d ∧ Q (normal d n) n := by
  simp only [mem_normal_declarations h, hkind]
  constructor
  · rintro ⟨_, n', ⟨_, hd, d, n, rfl, hn, rfl⟩, hn', hq⟩
    rw [hnames] at hn'
    obtain rfl := List.mem_singleton.1 hn'
    exact ⟨d, _, hd, hn, hq⟩
  · rintro ⟨d, n, hd, hn, hq⟩
    refine ⟨_, n, ⟨_, hd, d, n, rfl, hn, rfl⟩, ?_, hq⟩
    rw [hnames]
    exact List.mem_singleton.2 rfl

theorem exists_normal_entity (h : s.table.Distinct) {ns : String}
    {Q : EntityDecl → String → Prop} :
    (∃ d n, ⟨ns, .entity d⟩ ∈ s.normal.declarations ∧ n ∈ d.names ∧ Q d n) ↔
      ∃ d n, ⟨ns, .entity d⟩ ∈ s.declarations ∧ n ∈ d.names ∧ Q (d.normal n) n := by
  refine exists_normal h .entity EntityDecl.names EntityDecl.normal (fun d d' => ?_) fun _ _ => rfl
  cases d <;> simp [Decl.normals, eq_comm]

theorem exists_normal_enum (h : s.table.Distinct) {ns : String} {Q : EnumDecl → String → Prop} :
    (∃ d n, ⟨ns, .enum d⟩ ∈ s.normal.declarations ∧ n ∈ d.names ∧ Q d n) ↔
      ∃ d n, ⟨ns, .enum d⟩ ∈ s.declarations ∧ n ∈ d.names ∧ Q (d.normal n) n := by
  refine exists_normal h .enum EnumDecl.names EnumDecl.normal (fun d d' => ?_) fun _ _ => rfl
  cases d <;> simp [Decl.normals, eq_comm]

theorem exists_normal_action (h : s.table.Distinct) {ns : String}
    {Q : ActionDecl → String → Prop} :
    (∃ d n, ⟨ns, .action d⟩ ∈ s.normal.declarations ∧ n ∈ d.names ∧ Q d n) ↔
      ∃ d n, ⟨ns, .action d⟩ ∈ s.declarations ∧ n ∈ d.names ∧ Q (d.normal n) n := by
  refine exists_normal h .action ActionDecl.names ActionDecl.normal (fun d d' => ?_) fun _ _ => rfl
  cases d <;> simp [Decl.normals, eq_comm]

/-! ## The symbol table -/

theorem distinct_normal (h : s.table.Distinct) : s.normal.table.Distinct := by
  obtain ⟨hcommon, hreserved, hentity, haction⟩ := distinct_table_iff.1 h
  refine distinct_table_iff.2 ⟨(normal_commonTypeNames_perm h).nodup_iff.2 hcommon, ?_,
    (normal_entityTypeNames_perm h).nodup_iff.2 hentity,
    (normal_actionUids_perm h).nodup_iff.2 haction⟩
  intro ns c' hc'
  obtain ⟨c, hc, rfl⟩ := (mem_normal_commonType h).1 hc'
  exact hreserved ns c hc

theorem mem_table_entityTypes {name : String} :
    name ∈ s.table.entityTypes ↔ name ∈ s.entityTypeNames :=
  (s.scopedDecls_perm.flatMap_right Scoped.entityTypeNames).mem_iff

/-- The table of the normal form declares the same names and has the common types in normal
form. -/
theorem isNormalOf_table (h : s.table.Distinct) : s.normal.table.IsNormalOf s.table := by
  refine ⟨fun name => ?_, fun name => ?_⟩
  · rw [Bool.eq_iff_iff, hasEntityType_iff, hasEntityType_iff, mem_table_entityTypes,
      mem_table_entityTypes, (normal_entityTypeNames_perm h).mem_iff]
  · ext d'
    rw [commonType?_eq_some_iff (distinct_normal h).commonTypes, mem_table_commonTypes,
      mem_normal_commonType h, Option.map_eq_some_iff]
    simp only [commonType?_eq_some_iff h.commonTypes, mem_table_commonTypes]
    constructor
    · rintro ⟨hname, c, hc, hd'⟩
      obtain ⟨ns, c'⟩ := d'
      obtain rfl : c' = c.normal := hd'
      exact ⟨⟨ns, c⟩, ⟨hname, hc⟩, rfl⟩
    · rintro ⟨⟨ns, c⟩, ⟨hname, hc⟩, rfl⟩
      exact ⟨hname, c, hc, rfl⟩

/-! ## Reserved names -/

/-- A reserved name that is declared is declared in the normal form too, however often. -/
theorem reserved_normal {ns : String} {c : CommonTypeDecl}
    (hc : ⟨ns, .commonType c⟩ ∈ s.declarations) (hreserved : isReservedTypeName c.name = true) :
    ¬s.normal.table.Distinct := by
  obtain ⟨⟨ns, decls⟩, he, hd⟩ := List.mem_flatMap.1 (s.scopedDecls_perm.mem_iff.2 hc)
  obtain ⟨d, hd, ⟨⟩⟩ := List.mem_map.1 hd
  have hlisted : (c.name, Decl.commonType c.normal) ∈ decls.flatMap Decl.commonTypeEntries :=
    List.mem_flatMap.2 ⟨_, hd, List.mem_singleton.2 rfl⟩
  obtain ⟨d', hd'⟩ := Dict.exists_find?_ofList (List.mem_map_of_mem (f := Prod.fst) hlisted)
  have hentry := Dict.mem_entries_iff.2 hd'
  obtain ⟨d'', -, hd''⟩ := List.mem_flatMap.1 (Dict.mem_of_mem_ofList hentry)
  cases d'' <;> simp [Decl.commonTypeEntries] at hd''
  rename_i c'
  obtain ⟨hname, rfl⟩ := hd''
  intro hdistinct
  have hdecl : ⟨ns, .commonType c'.normal⟩ ∈ s.normal.declarations := by
    rw [normal_declarations]
    refine List.mem_flatMap.2 ⟨_, he, List.mem_map_of_mem ?_⟩
    refine List.mem_append_left _ (List.mem_append_left _ ?_)
    exact List.mem_map.2 ⟨_, hentry, rfl⟩
  have hno := (distinct_table_iff.1 hdistinct).2.1 ns _ hdecl
  have hname : c'.normal.name = c.name := hname.symm
  rw [hname, hreserved] at hno
  cases hno

end Schema

namespace SymbolTable

/-- The error is that a name is declared twice. -/
def IsDuplicate (e : ResolveError) : Prop := ∃ kind name, e = .duplicate kind name

theorem ends_declareEntityTypes (t : SymbolTable) (ns : String) (names : List String) :
    Ends IsDuplicate (names.foldlM (fun t n => t.declareEntityType (qualify ns n)) t)
      fun _ => True := by
  refine Ends.foldlM trivial fun t _ n _ => ?_
  rw [declareEntityType]
  split
  · exact ⟨_, _, rfl⟩
  · trivial

theorem ends_declareActions (t : SymbolTable) (ns : String) (names : List String) :
    Ends IsDuplicate (names.foldlM (fun t n => t.declareAction ⟨actionType ns, n⟩) t)
      fun _ => True := by
  refine Ends.foldlM trivial fun t _ n _ => ?_
  rw [declareAction]
  split
  · exact ⟨_, _, rfl⟩
  · trivial

theorem ends_declareCommonType (t : SymbolTable) (name : String) (c : Scoped CommonTypeDecl) :
    Ends IsDuplicate (t.declareCommonType name c) fun _ => True := by
  rw [declareCommonType]
  split
  · exact ⟨_, _, rfl⟩
  · trivial

/-- If a table cannot be made, a name is declared twice or a common type bears a reserved name. -/
theorem ends_ofSchema (s : Schema) :
    Ends (fun e => IsDuplicate e ∨
      ∃ ns c, ⟨ns, .commonType c⟩ ∈ s.declarations ∧ isReservedTypeName c.name = true)
      (ofSchema s) fun _ => True := by
  refine Ends.foldlM trivial fun t _ d hd => ?_
  have hd := s.scopedDecls_perm.mem_iff.1 hd
  obtain ⟨ns, d⟩ := d
  cases d with
  | entity d =>
    exact Ends.bind ((ends_declareEntityTypes t ns d.names).impError fun _ => .inl)
      fun _ _ => trivial
  | enum d =>
    exact Ends.bind ((ends_declareEntityTypes t ns d.names).impError fun _ => .inl)
      fun _ _ => trivial
  | action d =>
    exact Ends.bind ((ends_declareActions t ns d.names).impError fun _ => .inl) fun _ _ => trivial
  | commonType c =>
    rw [declare]
    split
    · rename_i hreserved
      exact .inr ⟨ns, c, hd, hreserved⟩
    · exact (ends_declareCommonType t _ _).impError fun _ => .inl

end SymbolTable

end CedarSchema
