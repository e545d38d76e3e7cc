import CedarSchema.Proofs.Resolve.Result

/-
  What a resolved schema says. A type expression stands for one type at most (`Denotes.unique`), and
  every entry of a resolved schema is what one of the declarations stands for. Neither the
  expansions that are kept nor the order in which they are made nor the chain below which a type is
  looked at has a part in this.
-/

namespace CedarSchema

open SymbolTable

namespace SymbolTable

variable {t : SymbolTable}

/-! ## One meaning -/

mutual

/-- A type expression stands for one type at most. -/
theorem Denotes.unique {ns : String} : {type : TypeExpr} → {a b : ResolvedType} →
    t.Denotes ns type a → t.Denotes ns type b → a = b
  | .path p, _, _, .builtin hp, h => by
    cases h with
    | builtin hp' =>
      cases hp.symm.trans hp'
      rfl
    | entityType hp' => cases hp.symm.trans hp'
    | commonType hp' => cases hp.symm.trans hp'
  | .path p, _, _, .entityType hp, h => by
    cases h with
    | builtin hp' => cases hp.symm.trans hp'
    | entityType hp' =>
      cases hp.symm.trans hp'
      rfl
    | commonType hp' => cases hp.symm.trans hp'
  | .path p, _, _, .commonType hp hd ha, h => by
    cases h with
    | builtin hp' => cases hp.symm.trans hp'
    | entityType hp' => cases hp.symm.trans hp'
    | commonType hp' hd' hb =>
      cases hp.symm.trans hp'
      cases hd.symm.trans hd'
      exact ha.unique hb
  | .entity p, _, _, .entity hp, .entity hp' => by
    cases hp.symm.trans hp'
    rfl
  | .set element, _, _, .set ha, .set hb => by rw [ha.unique hb]
  | .record r, _, _, .record ha, .record hb => by rw [ha.unique hb]

theorem DenotesRecord.unique {ns : String} : {r : Record TypeExpr} → {a b : Fields} →
    t.DenotesRecord ns r a → t.DenotesRecord ns r b → a = b
  | _, _, _, .mk ha _, .mk hb _ => by rw [ha.unique hb]

theorem DenotesAll.unique {ns : String} : {attributes : List (Attribute TypeExpr)} →
    {a b : Fields} → t.DenotesAll ns attributes a → t.DenotesAll ns attributes b → a = b
  | _, _, _, .nil _, .nil _ => rfl
  | _, _, _, .cons ha harest, .cons hb hbrest => by rw [ha.unique hb, harest.unique hbrest]

end

section

variable {ns : String} {α β : Type} {R : α → β → Prop}

theorem eq_of_rel {a : Option α} {b c : Option β} (hb : Option.Rel R a b)
    (hc : Option.Rel R a c) (hR : ∀ a b c, R a b → R a c → b = c) : b = c := by
  cases hb with
  | none =>
    cases hc
    rfl
  | some hb =>
    cases hc with
    | some hc => rw [hR _ _ _ hb hc]

theorem RefsOf.unique {refs : List Path} {a b : List String} (ha : t.RefsOf ns refs a)
    (hb : t.RefsOf ns refs b) : a = b := by
  refine List.right_unique_forall₂' (fun p n n' hn hn' => ?_) ha hb
  cases hn.symm.trans hn'
  rfl

theorem ContextOf.unique {context : Option TypeExpr} {a b : Fields} (ha : t.ContextOf ns context a)
    (hb : t.ContextOf ns context b) : a = b := by
  cases ha with
  | none =>
    cases hb
    rfl
  | some ha =>
    cases hb with
    | some hb =>
      cases ha.unique hb
      rfl

theorem AppliesToOf.unique {c : AppliesTo} {a b : ResolvedAppliesTo} (ha : t.AppliesToOf ns c a)
    (hb : t.AppliesToOf ns c b) : a = b := by
  obtain ⟨principals, resources, context⟩ := a
  obtain ⟨principals', resources', context'⟩ := b
  have hp : principals = principals' := ha.principals.unique hb.principals
  have hr : resources = resources' := ha.resources.unique hb.resources
  have hc : context = context' := ha.context.unique hb.context
  rw [hp, hr, hc]

end

/-- A declaration of an entity type stands for one entity type under each of its names. -/
theorem EntityOf.unique {d : Scoped EntityDecl} {n : String} {a b : ResolvedEntity}
    (ha : t.EntityOf d n a) (hb : t.EntityOf d n b) : a = b := by
  obtain ⟨name, annotations, parents, shape, tags⟩ := a
  obtain ⟨name', annotations', parents', shape', tags'⟩ := b
  have hn : name = name' := ha.name.trans hb.name.symm
  have hannotations : annotations = annotations' := ha.annotations.trans hb.annotations.symm
  have hp : parents = parents' := ha.parents.unique hb.parents
  have hs : shape = shape' := eq_of_rel ha.shape hb.shape fun _ _ _ => DenotesRecord.unique
  have ht : tags = tags' := eq_of_rel ha.tags hb.tags fun _ _ _ => Denotes.unique
  rw [hn, hannotations, hp, hs, ht]

/-- A declaration of an action stands for one action under each of its names. -/
theorem ActionOf.unique {d : Scoped ActionDecl} {n : String} {a b : ResolvedAction}
    (ha : t.ActionOf d n a) (hb : t.ActionOf d n b) : a = b := by
  obtain ⟨uid, annotations, parents, appliesTo⟩ := a
  obtain ⟨uid', annotations', parents', appliesTo'⟩ := b
  have hu : uid = uid' := ha.uid.trans hb.uid.symm
  have hannotations : annotations = annotations' := ha.annotations.trans hb.annotations.symm
  have hp : parents = parents' := ha.parents.trans hb.parents.symm
  have hat : appliesTo = appliesTo' :=
    eq_of_rel ha.appliesTo hb.appliesTo fun _ _ _ => AppliesToOf.unique
  rw [hu, hannotations, hp, hat]

end SymbolTable

/-! ## Entries -/

/-- The dictionary has an entry for each declaration of the schema under each of its names, namely
what the declaration stands for, and no other. -/
structure ResolvedSchema.Says (r : ResolvedSchema) (s : Schema) : Prop where
  entities : ∀ name e, r.entities.find? name = some e ↔ ∃ ns d n,
    ⟨ns, .entity d⟩ ∈ s.declarations ∧ n ∈ d.names ∧ name = qualify ns n ∧
      s.table.EntityOf ⟨ns, d⟩ n e
  enums : ∀ name e, r.enums.find? name = some e ↔ ∃ ns d n,
    ⟨ns, .enum d⟩ ∈ s.declarations ∧ n ∈ d.names ∧ name = qualify ns n ∧
      e = ⟨qualify ns n, annotationDict d.annotations, d.values⟩
  actions : ∀ uid a, r.actions.find? uid = some a ↔ ∃ ns d n,
    ⟨ns, .action d⟩ ∈ s.declarations ∧ n ∈ d.names ∧ uid = ⟨actionType ns, n⟩ ∧
      s.table.ActionOf ⟨ns, d⟩ n a

/-- Values under keys of their own, each of them what one thing stands for. -/
theorem Dict.find?_ofList_forall₂ {α β κ : Type} [Ord κ] [Std.TransOrd κ] [Std.LawfulEqOrd κ]
    {R : α → β → Prop} {f : β → κ} {l : List α} {m : List β} (h : List.Forall₂ R l m)
    (hR : ∀ a b c, R a b → R a c → b = c) (hm : (m.map f).Nodup) {k : κ} {b : β} :
    (ofList (m.map fun b => (f b, b))).find? k = some b ↔ ∃ a ∈ l, f b = k ∧ R a b := by
  rw [find?_ofList_map_iff hm]
  constructor
  · rintro ⟨hb, hk⟩
    obtain ⟨a, ha, hab⟩ := exists_of_forall₂_right h hb
    exact ⟨a, ha, hk, hab⟩
  · rintro ⟨a, ha, hk, hab⟩
    obtain ⟨c, hc, hac⟩ := exists_of_forall₂_left h ha
    rw [hR a b c hab hac] at hk ⊢
    exact ⟨hc, hk⟩

namespace Schema

variable {s : Schema} {r : ResolvedSchema}

theorem mem_table_enums {d : Scoped EnumDecl} :
    d ∈ s.table.enums ↔ ⟨d.ns, .enum d.decl⟩ ∈ s.declarations := by
  refine (s.scopedDecls_perm.flatMap_right Scoped.enums).mem_iff.trans ?_
  rw [List.mem_flatMap]
  constructor
  · rintro ⟨⟨ns, d⟩, hd, hx⟩
    cases d <;> cases hx
    · exact hd
    · contradiction
  · exact fun hd => ⟨_, hd, List.mem_singleton.2 rfl⟩

theorem mem_enums {e : ResolvedEnum} : e ∈ s.enums ↔ ∃ ns d n, ⟨ns, .enum d⟩ ∈ s.declarations ∧
    n ∈ d.names ∧ e = ⟨qualify ns n, annotationDict d.annotations, d.values⟩ := by
  rw [enums, List.mem_flatMap]
  constructor
  · rintro ⟨⟨ns, d⟩, hd, he⟩
    obtain ⟨n, hn, rfl⟩ := List.mem_map.1 he
    exact ⟨ns, d, n, mem_table_enums.1 hd, hn, rfl⟩
  · rintro ⟨ns, d, n, hd, hn, rfl⟩
    exact ⟨⟨ns, d⟩, mem_table_enums.2 hd, List.mem_map_of_mem hn⟩

theorem mem_namedEntities {x : Scoped EntityDecl × String} :
    x ∈ namedEntities s.table.entities ↔
      ⟨x.1.ns, .entity x.1.decl⟩ ∈ s.declarations ∧ x.2 ∈ x.1.decl.names := by
  simp [namedEntities, Prod.ext_iff, mem_table_entities]

/-- A schema resolves to what its declarations stand for. -/
theorem says_of_resolve (h : s.resolve = .ok r) : r.Says s := by
  cases (ends_resolve s).of_ok h with
  | @mk entities actions hbound hentities hactions hclosed hacyclic =>
    have hnodup := hentities.map_name_perm.nodup_iff.2 hbound.distinct.entityTypes
    obtain ⟨hentity, henum, -⟩ := List.nodup_append.1 hnodup
    have huids : (actions.map ResolvedAction.uid).Nodup :=
      hactions.map_uid ▸ hbound.distinct.actionUids
    refine ⟨fun name e => ?_, fun name e => ?_, fun uid a => ?_⟩
    · rw [Dict.find?_ofList_forall₂ hentities (fun _ _ _ => EntityOf.unique) hentity]
      constructor
      · rintro ⟨⟨⟨ns, d⟩, n⟩, hx, rfl, hof⟩
        obtain ⟨hd, hn⟩ := mem_namedEntities.1 hx
        exact ⟨ns, d, n, hd, hn, hof.name, hof⟩
      · rintro ⟨ns, d, n, hd, hn, rfl, hof⟩
        exact ⟨(⟨ns, d⟩, n), mem_namedEntities.2 ⟨hd, hn⟩, hof.name, hof⟩
    · rw [Dict.find?_ofList_map_iff henum, mem_enums]
      constructor
      · rintro ⟨⟨ns, d, n, hd, hn, rfl⟩, rfl⟩
        exact ⟨ns, d, n, hd, hn, rfl, rfl⟩
      · rintro ⟨ns, d, n, hd, hn, rfl, rfl⟩
        exact ⟨⟨ns, d, n, hd, hn, rfl⟩, rfl⟩
    · show (actionDict actions).find? uid = some a ↔ _
      rw [actionDict, Dict.find?_ofList_forall₂ hactions (fun _ _ _ => ActionOf.unique) huids]
      constructor
      · rintro ⟨⟨⟨ns, d⟩, n⟩, hx, rfl, hof⟩
        obtain ⟨hd, hn⟩ := mem_namedActions.1 hx
        exact ⟨ns, d, n, mem_table_actions.1 hd, hn, hof.uid, hof⟩
      · rintro ⟨ns, d, n, hd, hn, rfl, hof⟩
        have hx := mem_namedActions (x := (⟨ns, d⟩, n)).2 ⟨mem_table_actions.2 hd, hn⟩
        exact ⟨_, hx, hof.uid, hof⟩

/-- Every type of a resolved schema is what the type that is written stands for in the namespace of
its declaration, and a type stands for one type at most. Whatever common types are expanded first,
and whatever chain a type is looked at below, it resolves to what it stands for if it resolves, and
what is kept stays right. -/
theorem denotes_of_resolve (h : s.resolve = .ok r) :
    r.Says s ∧
      (∀ ns type a b, s.table.Denotes ns type a → s.table.Denotes ns type b → a = b) ∧
      (∀ names expanded, (∀ n ∈ names, n ∈ s.table.commonTypes.map Prod.fst) →
        s.table.expandAll names .empty = .ok expanded → s.table.Sound expanded) ∧
      ∀ chain ns type expanded x, s.table.Sound expanded →
        s.table.resolveType chain ns type expanded = .ok x →
          s.table.Denotes ns type x.1 ∧ s.table.Sound x.2 := by
  refine ⟨says_of_resolve h, fun ns type a b => Denotes.unique, ?_, ?_⟩
  · intro names expanded hnames hexpanded
    have hall := blames_expandAll names .empty sound_empty fun n hn =>
      commonType?_of_mem (hnames n hn)
    exact (hall.of_ok hexpanded).1
  · intro chain ns type expanded x hexpanded hx
    exact (blames_resolveType chain ns type expanded hexpanded).of_ok hx

theorem denotes_of_resolve_follows : ∃ r, follows.resolve = .ok r ∧ r.Says follows := by
  obtain ⟨r, hr⟩ := exists_resolve_follows
  exact ⟨r, hr, (denotes_of_resolve hr).1⟩

end Schema

end CedarSchema
