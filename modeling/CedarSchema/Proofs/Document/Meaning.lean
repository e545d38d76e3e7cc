import CedarSchema.Proofs.Document.Declarations
import CedarSchema.Proofs.Resolve.Judgement

/-
  The normal form of a tidy schema means what the schema means. If the schema resolves, its normal
  form resolves to the same (`Schema.Tidy.resolve_normal`); if the normal form resolves, the schema
  resolves too unless it declares a name twice (`Schema.Tidy.resolve_of_normal`). Of two
  declarations of one name only the last is in the normal form, so the exception is needed.
-/

namespace CedarSchema

open SymbolTable

/-! ## Declarations -/

namespace Decl

theorem length_normals (d : Decl) : d.normals.length = d.names.length := by
  cases d <;> simp [normals, names]

theorem Tidy.names_ne_nil {d : Decl} (h : d.Tidy) : d.names ≠ [] := by
  cases d with
  | entity d => exact EntityDecl.Tidy.names h
  | enum d => exact EnumDecl.Tidy.names h
  | action d => exact ActionDecl.Tidy.names h
  | commonType d => exact List.cons_ne_nil _ _

theorem Tidy.normals_ne_nil {d : Decl} (h : d.Tidy) : d.normals ≠ [] := by
  rw [← List.length_pos_iff, d.length_normals, List.length_pos_iff]
  exact h.names_ne_nil

theorem Tidy.types {d : Decl} (h : d.Tidy) : ∀ t ∈ d.types, t.Tidy := by
  cases d with
  | entity d =>
    have hd : d.Tidy := h
    refine List.forall_mem_append.2 ⟨fun t ht => ?_, fun t ht => hd.tags t (Option.mem_toList.1 ht)⟩
    obtain ⟨r, hr, rfl⟩ := Option.map_eq_some_iff.1 (Option.mem_toList.1 ht)
    exact hd.shape r hr
  | enum d => exact nofun
  | action d =>
    have hd : d.Tidy := h
    intro t ht
    obtain ⟨a, ha, ht⟩ := Option.bind_eq_some_iff.1 (Option.mem_toList.1 ht)
    exact (hd.appliesTo a ha).context t ht
  | commonType d => exact List.forall_mem_singleton.2 h

/-- What a declaration refers to is referred to in its normal forms. -/
theorem of_mem_normals {d d' : Decl} (h : d' ∈ d.normals) :
    d'.types = d.types.map TypeExpr.normal ∧ d'.contexts = d.contexts.map TypeExpr.normal ∧
      d'.entityRefs = d.entityRefs ∧ d'.names ≠ [] := by
  cases d with
  | entity d =>
    obtain ⟨n, -, rfl⟩ := List.mem_map.1 h
    refine ⟨?_, rfl, rfl, by simp [names, EntityDecl.normal]⟩
    cases hs : d.shape <;> cases ht : d.tags <;>
      simp [types, EntityDecl.normal, TypeExpr.normal, hs, ht]
  | enum d =>
    obtain ⟨n, -, rfl⟩ := List.mem_map.1 h
    exact ⟨rfl, rfl, rfl, by simp [names, EnumDecl.normal]⟩
  | action d =>
    obtain ⟨n, -, rfl⟩ := List.mem_map.1 h
    have hcontext : ((d.normal n).appliesTo.bind AppliesTo.context).toList =
        (d.appliesTo.bind AppliesTo.context).toList.map TypeExpr.normal := by
      cases ha : d.appliesTo with
      | none => simp [ActionDecl.normal, ha]
      | some a => cases hc : a.context <;> simp [ActionDecl.normal, AppliesTo.normal, ha, hc]
    refine ⟨hcontext, hcontext, ?_, by simp [names, ActionDecl.normal]⟩
    cases ha : d.appliesTo <;> simp [entityRefs, ActionDecl.normal, AppliesTo.normal, ha]
  | commonType d =>
    obtain rfl := List.mem_singleton.1 h
    exact ⟨rfl, rfl, rfl, List.cons_ne_nil _ _⟩

end Decl

namespace Schema

variable {s : Schema}

/-- What holds of every declaration of the normal form holds of every declaration. -/
theorem Tidy.forall_normal (ht : s.Tidy) (h : s.table.Distinct) {P P' : Scoped Decl → Prop}
    (hP : ∀ ns d d', d.Tidy → d' ∈ d.normals → (P' ⟨ns, d'⟩ ↔ P ⟨ns, d⟩)) :
    (∀ d ∈ s.normal.declarations, P' d) ↔ ∀ d ∈ s.declarations, P d := by
  constructor
  · rintro hall ⟨ns, d⟩ hd
    have htidy := ht.of_mem_declarations hd
    obtain ⟨d', hd'⟩ := List.exists_mem_of_ne_nil _ (Decl.Tidy.normals_ne_nil htidy)
    exact (hP ns d d' htidy hd').1 (hall _ ((mem_normal_declarations h).2 ⟨d, hd, hd'⟩))
  · rintro hall ⟨ns, d'⟩ hd'
    obtain ⟨d, hd, hd'⟩ := (mem_normal_declarations h).1 hd'
    exact (hP ns d d' (ht.of_mem_declarations hd) hd').2 (hall _ hd)

theorem Tidy.wellBound_normal_iff (ht : s.Tidy) (h : s.table.Distinct) :
    s.normal.WellBound ↔ s.WellBound := by
  have hnormal := isNormalOf_table h
  have htypes : (∀ d ∈ s.normal.declarations, ∀ type ∈ d.decl.types,
      s.normal.table.Binds d.ns type) ↔
      ∀ d ∈ s.declarations, ∀ type ∈ d.decl.types, s.table.Binds d.ns type := by
    refine ht.forall_normal h fun ns d d' htidy hd' => ?_
    rw [(Decl.of_mem_normals hd').1, List.forall_mem_map]
    exact forall₂_congr fun type htype => hnormal.binds_iff type (htidy.types type htype)
  have hrefs : (∀ d ∈ s.normal.declarations, s.normal.table.BindsRefs d.ns d.decl.entityRefs) ↔
      ∀ d ∈ s.declarations, s.table.BindsRefs d.ns d.decl.entityRefs := by
    refine ht.forall_normal h fun ns d d' _ hd' => ?_
    rw [(Decl.of_mem_normals hd').2.2.1]
    simp only [BindsRefs, hnormal.lookupEntityType_eq]
  have hcontexts : (∀ d ∈ s.normal.declarations, ∀ type ∈ d.decl.contexts,
      s.normal.table.IsRecord d.ns type) ↔
      ∀ d ∈ s.declarations, ∀ type ∈ d.decl.contexts, s.table.IsRecord d.ns type := by
    refine ht.forall_normal h fun ns d d' _ hd' => ?_
    rw [(Decl.of_mem_normals hd').2.1, List.forall_mem_map]
    exact forall₂_congr fun type _ => hnormal.isRecord_iff
  have hrefers : s.normal.table.Refers = s.table.Refers := by
    refine hnormal.refers_eq fun name d hd => ?_
    have hd := (mem_table_commonTypes.1 ((commonType?_eq_some_iff h.commonTypes).1 hd)).2
    exact ht.of_mem_declarations hd
  obtain ⟨hcommon, hreserved, hentity, haction⟩ := distinct_table_iff.1 h
  obtain ⟨hcommon', hreserved', hentity', haction'⟩ := distinct_table_iff.1 (distinct_normal h)
  constructor
  · intro hw
    exact ⟨hentity, hcommon, haction, hreserved, htypes.1 hw.types, hrefers ▸ hw.acyclic,
      hrefs.1 hw.entityRefs, hcontexts.1 hw.contexts⟩
  · intro hw
    exact ⟨hentity', hcommon', haction', hreserved', htypes.2 hw.types, hrefers ▸ hw.acyclic,
      hrefs.2 hw.entityRefs, hcontexts.2 hw.contexts⟩

/-! ## Membership -/

theorem isMember_normal_iff (h : s.table.Distinct) {a b : EntityUid} :
    s.normal.IsMember a b ↔ s.IsMember a b := by
  have hmember (s : Schema) : s.IsMember a b ↔ ∃ ns d n, ⟨ns, .action d⟩ ∈ s.declarations ∧
      n ∈ d.names ∧ a = ⟨actionType ns, n⟩ ∧ b ∈ d.parents.map (parentUid ns) := by
    rw [isMember_iff]
    constructor
    · rintro ⟨⟨⟨ns, d⟩, n⟩, hx, ha, hb⟩
      obtain ⟨hd, hn⟩ := mem_namedActions.1 hx
      exact ⟨ns, d, n, mem_table_actions.1 hd, hn, ha, hb⟩
    · rintro ⟨ns, d, n, hd, hn, ha, hb⟩
      exact ⟨(⟨ns, d⟩, n), mem_namedActions.2 ⟨mem_table_actions.2 hd, hn⟩, ha, hb⟩
  rw [hmember, hmember]
  exact exists_congr fun ns => exists_normal_action h

/-- If no name is declared twice, the normal form resolves exactly if the schema does. -/
theorem Tidy.exists_resolve_normal_iff (ht : s.Tidy) (h : s.table.Distinct) :
    (∃ r, s.normal.resolve = .ok r) ↔ ∃ r, s.resolve = .ok r := by
  have hnames : ∀ d ∈ s.declarations, d.decl.names ≠ [] :=
    fun d hd => (ht.of_mem_declarations hd).names_ne_nil
  have hnames' : ∀ d ∈ s.normal.declarations, d.decl.names ≠ [] := by
    rintro ⟨ns, d'⟩ hd'
    obtain ⟨d, -, hd'⟩ := (mem_normal_declarations h).1 hd'
    exact (Decl.of_mem_normals hd').2.2.2
  rw [exists_resolve_iff, exists_resolve_iff, bound_iff hnames, bound_iff hnames',
    ht.wellBound_normal_iff h]
  have hmember : s.normal.IsMember = s.IsMember :=
    funext fun a => funext fun b => propext (isMember_normal_iff h)
  rw [hmember]
  simp only [(normal_actionUids_perm h).mem_iff]

end Schema

/-! ## Entries -/

namespace SymbolTable.IsNormalOf

variable {t t' : SymbolTable} (h : t'.IsNormalOf t) {ns n : String}

theorem rel_map {α β γ : Type} {R : α → γ → Prop} {R' : β → γ → Prop} {f : α → β} {a : Option α}
    {c : Option γ} (hac : Option.Rel R a c) (hR : ∀ a c, R a c → R' (f a) c) :
    Option.Rel R' (a.map f) c := by
  cases hac with
  | none => exact .none
  | some hac => exact .some (hR _ _ hac)

include h

theorem refsOf {refs : List Path} {names : List String} (hrefs : t.RefsOf ns refs names) :
    t'.RefsOf ns refs names :=
  hrefs.imp fun p _ hp => (h.lookupEntityType_eq ns p).trans hp

/-- The normal form of a declaration declares the same entity type. -/
theorem entityOf {d : EntityDecl} {e : ResolvedEntity} (he : t.EntityOf ⟨ns, d⟩ n e) :
    t'.EntityOf ⟨ns, d.normal n⟩ n e where
  name := he.name
  annotations := he.annotations.trans (annotationDict_normal d.annotations).symm
  parents := h.refsOf he.parents
  shape := rel_map he.shape fun _ _ => h.denotesRecord
  tags := rel_map he.tags fun _ _ => h.denotes

theorem appliesToOf {a : AppliesTo} {r : ResolvedAppliesTo} (hr : t.AppliesToOf ns a r) :
    t'.AppliesToOf ns a.normal r := by
  refine ⟨h.refsOf hr.principals, h.refsOf hr.resources, ?_⟩
  obtain ⟨principals, resources, context⟩ := r
  have hcontext : t.ContextOf ns a.context context := hr.context
  show t'.ContextOf ns (a.context.map TypeExpr.normal) context
  generalize a.context = type at hcontext
  cases hcontext with
  | none => exact .none
  | some htype => exact .some (h.denotes htype)

/-- The normal form of a declaration declares the same action. -/
theorem actionOf {d : ActionDecl} {a : ResolvedAction} (ha : t.ActionOf ⟨ns, d⟩ n a) :
    t'.ActionOf ⟨ns, d.normal n⟩ n a where
  uid := ha.uid
  annotations := ha.annotations.trans (annotationDict_normal d.annotations).symm
  parents := ha.parents
  appliesTo := rel_map ha.appliesTo fun _ _ => h.appliesToOf

end SymbolTable.IsNormalOf

namespace Schema

variable {s : Schema} {r : ResolvedSchema}

/-- Dictionaries are equal if one has the entries of the other and no further keys. -/
theorem eq_of_entries {κ α : Type} [Ord κ] [Std.TransOrd κ] [Std.LawfulEqOrd κ] {d d' : Dict κ α}
    (h : ∀ k a, d.find? k = some a → d'.find? k = some a)
    (h' : ∀ k a', d'.find? k = some a' → ∃ a, d.find? k = some a) : d' = d := by
  refine Dict.ext_find? fun k => Option.ext fun a => ⟨fun ha => ?_, h k a⟩
  obtain ⟨b, hb⟩ := h' k a ha
  cases (h k b hb).symm.trans ha
  exact hb

/-- Every declaration of a schema that resolves stands for something. -/
theorem exists_of_resolve (h : s.resolve = .ok r) {ns : String} :
    (∀ d n, ⟨ns, .entity d⟩ ∈ s.declarations → n ∈ d.names → ∃ e, s.table.EntityOf ⟨ns, d⟩ n e) ∧
      ∀ d n, ⟨ns, .action d⟩ ∈ s.declarations → n ∈ d.names →
        ∃ a, s.table.ActionOf ⟨ns, d⟩ n a := by
  cases (ends_resolve s).of_ok h with
  | mk _ hentities hactions _ _ =>
    constructor
    · intro d n hd hn
      have hx : ((⟨ns, d⟩, n) : Scoped EntityDecl × String) ∈ namedEntities s.table.entities :=
        mem_namedEntities.2 ⟨hd, hn⟩
      obtain ⟨e, -, he⟩ := exists_of_forall₂_left hentities hx
      exact ⟨e, he⟩
    · intro d n hd hn
      have hx : ((⟨ns, d⟩, n) : Scoped ActionDecl × String) ∈ s.table.namedActions :=
        mem_namedActions.2 ⟨mem_table_actions.2 hd, hn⟩
      obtain ⟨a, -, ha⟩ := exists_of_forall₂_left hactions hx
      exact ⟨a, ha⟩

section

variable {r' : ResolvedSchema} (hdistinct : s.table.Distinct) (hr : s.resolve = .ok r)
  (hr' : s.normal.resolve = .ok r')

include hdistinct hr hr'

theorem entities_normal : r'.entities = r.entities := by
  have hres := says_of_resolve hr
  have hres' := says_of_resolve hr'
  refine eq_of_entries (fun name e he => ?_) fun name e he => ?_
  · obtain ⟨ns, d, n, hd, hn, hname, he⟩ := (hres.entities name e).1 he
    have he' := (isNormalOf_table hdistinct).entityOf he
    refine (hres'.entities name e).2 ⟨ns, ?_⟩
    exact (exists_normal_entity hdistinct).2 ⟨d, n, hd, hn, hname, he'⟩
  · obtain ⟨ns, he⟩ := (hres'.entities name e).1 he
    obtain ⟨d, n, hd, hn, hname, -⟩ := (exists_normal_entity hdistinct).1 he
    obtain ⟨e', he'⟩ := (exists_of_resolve hr).1 d n hd hn
    exact ⟨e', (hres.entities name e').2 ⟨ns, d, n, hd, hn, hname, he'⟩⟩

theorem enums_normal : r'.enums = r.enums := by
  refine Dict.ext_find? fun name => Option.ext fun e => ?_
  rw [(says_of_resolve hr).enums, (says_of_resolve hr').enums]
  refine exists_congr fun ns => (exists_normal_enum hdistinct).trans ?_
  simp only [EnumDecl.normal, annotationDict_normal]

theorem actions_normal : r'.actions = r.actions := by
  have hres := says_of_resolve hr
  have hres' := says_of_resolve hr'
  refine eq_of_entries (fun uid a ha => ?_) fun uid a ha => ?_
  · obtain ⟨ns, d, n, hd, hn, huid, ha⟩ := (hres.actions uid a).1 ha
    have ha' := (isNormalOf_table hdistinct).actionOf ha
    refine (hres'.actions uid a).2 ⟨ns, ?_⟩
    exact (exists_normal_action hdistinct).2 ⟨d, n, hd, hn, huid, ha'⟩
  · obtain ⟨ns, ha⟩ := (hres'.actions uid a).1 ha
    obtain ⟨d, n, hd, hn, huid, -⟩ := (exists_normal_action hdistinct).1 ha
    obtain ⟨a', ha'⟩ := (exists_of_resolve hr).2 d n hd hn
    exact ⟨a', (hres.actions uid a').2 ⟨ns, d, n, hd, hn, huid, ha'⟩⟩

end

/-- A schema that resolves and its normal form resolve to the same. -/
theorem Tidy.resolve_normal (ht : s.Tidy) (hr : s.resolve = .ok r) :
    s.normal.resolve = .ok r := by
  have hdistinct : s.table.Distinct := ((exists_resolve_iff s).1 ⟨r, hr⟩).1.distinct
  obtain ⟨r', hr'⟩ := (ht.exists_resolve_normal_iff hdistinct).2 ⟨r, hr⟩
  have hentities := entities_normal hdistinct hr hr'
  have henums := enums_normal hdistinct hr hr'
  have hactions := actions_normal hdistinct hr hr'
  obtain ⟨entities, enums, actions⟩ := r
  obtain ⟨entities', enums', actions'⟩ := r'
  cases hentities
  cases henums
  cases hactions
  exact hr'

/-- If the normal form of a schema resolves, the schema resolves or declares a name twice. -/
theorem Tidy.resolve_of_normal (ht : s.Tidy) (hr : s.normal.resolve = .ok r) :
    (∃ r, s.resolve = .ok r) ∨ ∃ kind name, s.resolve = .error (.duplicate kind name) := by
  by_cases hdistinct : s.table.Distinct
  · exact .inl ((ht.exists_resolve_normal_iff hdistinct).1 ⟨r, hr⟩)
  · right
    have hdistinct' := ((exists_resolve_iff s.normal).1 ⟨r, hr⟩).1.distinct
    have hneeds := needs_ofSchema s
    cases ht : ofSchema s with
    | ok t => exact (hdistinct (hneeds.of_ok ht).1).elim
    | error e =>
      rcases (ends_ofSchema s).of_error ht with ⟨kind, name, rfl⟩ | ⟨ns, c, hc, hreserved⟩
      · exact ⟨kind, name, by rw [resolve, ht]; rfl⟩
      · exact (reserved_normal hc hreserved hdistinct').elim

end Schema

end CedarSchema
