import CedarSchema.Proofs.Resolve.Result

/-
  When a schema resolves. All that its declarations refer to has to be bound, no name may be
  declared twice, common types may not lead back to themselves and contexts have to be records
  (`WellBound`); then every parent of an action has to be declared, and last no action may be a
  member of itself. Errors about the membership of actions are reported of well-bound schemas only.
-/

namespace CedarSchema

open SymbolTable

/-! ## What a declaration refers to -/

namespace Decl

def names : Decl → List String
  | entity d => d.names
  | enum d => d.names
  | action d => d.names
  | commonType d => [d.name]

/-- The types that are written in a declaration. -/
def types : Decl → List TypeExpr
  | entity d => (d.shape.map TypeExpr.record).toList ++ d.tags.toList
  | enum _ => []
  | action d => (d.appliesTo.bind AppliesTo.context).toList
  | commonType d => [d.type]

def contexts : Decl → List TypeExpr
  | action d => (d.appliesTo.bind AppliesTo.context).toList
  | _ => []

/-- The parents of entity types, and the principals and resources of actions. -/
def entityRefs : Decl → List Path
  | entity d => d.parents
  | action d =>
    (d.appliesTo.map fun a => a.principals.getD [] ++ a.resources.getD []).getD []
  | _ => []

end Decl

namespace Schema

/-- The schema has a meaning up to the membership of its actions. -/
structure WellBound (s : Schema) : Prop where
  entityTypes : s.entityTypeNames.Nodup
  commonTypes : s.commonTypeNames.Nodup
  actions : s.actionUids.Nodup
  notReserved : ∀ ns c, ⟨ns, .commonType c⟩ ∈ s.declarations → isReservedTypeName c.name = false
  types : ∀ d ∈ s.declarations, ∀ type ∈ d.decl.types, s.table.Binds d.ns type
  acyclic : Acyclic s.table.Refers
  entityRefs : ∀ d ∈ s.declarations, s.table.BindsRefs d.ns d.decl.entityRefs
  contexts : ∀ d ∈ s.declarations, ∀ type ∈ d.decl.contexts, s.table.IsRecord d.ns type

/-- Every parent of an action is declared. -/
def DeclaresParents (s : Schema) : Prop :=
  ∀ d ∈ s.declarations, ∀ p ∈ d.parentUids, p ∈ s.actionUids

variable {s : Schema}

/-! ## Declaration by declaration -/

theorem commonType?_eq_some_iff {t : SymbolTable} (h : (t.commonTypes.map Prod.fst).Nodup)
    {name : String} {d : Scoped CommonTypeDecl} :
    t.commonType? name = some d ↔ (name, d) ∈ t.commonTypes := by
  unfold commonType?
  constructor
  · intro hd
    obtain ⟨l, r, heq, -⟩ := List.lookup_eq_some_iff.1 hd
    simp [heq]
  · intro hd
    obtain ⟨l, r, heq⟩ := List.append_of_mem hd
    refine List.lookup_eq_some_iff.2 ⟨l, r, heq, fun e he => ?_⟩
    rw [heq, List.map_append, List.nodup_append] at h
    exact bne_iff_ne.2 fun hname =>
      h.2.2 _ (List.mem_map_of_mem he) _ List.mem_cons_self hname.symm

theorem bindsBodies_iff (h : s.table.Distinct) : s.table.BindsBodies ↔
    ∀ ns c, ⟨ns, .commonType c⟩ ∈ s.declarations → s.table.Binds ns c.type := by
  constructor
  · intro hbodies ns c hc
    refine hbodies (qualify ns c.name) ⟨ns, c⟩ ((commonType?_eq_some_iff h.commonTypes).2 ?_)
    exact mem_table_commonTypes.2 ⟨rfl, hc⟩
  · intro hall name d hd
    have hmem := (commonType?_eq_some_iff h.commonTypes).1 hd
    exact hall d.ns d.decl (mem_table_commonTypes.1 hmem).2

theorem bindsEntity_iff {t : SymbolTable} {d : Scoped EntityDecl} : t.BindsEntity d ↔
    (∀ type ∈ (Decl.entity d.decl).types, t.Binds d.ns type) ∧
      t.BindsRefs d.ns (Decl.entity d.decl).entityRefs := by
  constructor
  · rintro ⟨hparents, hshape, htags⟩
    refine ⟨List.forall_mem_append.2 ⟨fun type h => ?_, fun type h => ?_⟩, hparents⟩
    · obtain ⟨r, hr, rfl⟩ := Option.map_eq_some_iff.1 (Option.mem_toList.1 h)
      exact hshape r hr
    · exact htags type (Option.mem_toList.1 h)
  · rintro ⟨htypes, hrefs⟩
    obtain ⟨hshape, htags⟩ := List.forall_mem_append.1 htypes
    refine ⟨hrefs, fun r hr => ?_, fun type h => htags type (Option.mem_toList.2 h)⟩
    exact hshape (.record r) (Option.mem_toList.2 (Option.mem_map_of_mem _ hr))

theorem bindsAppliesTo_iff {t : SymbolTable} {d : Scoped ActionDecl} :
    (∀ a ∈ d.decl.appliesTo, t.BindsAppliesTo d.ns a) ↔
      (∀ type ∈ (Decl.action d.decl).types, t.Binds d.ns type) ∧
        t.BindsRefs d.ns (Decl.action d.decl).entityRefs ∧
        ∀ type ∈ (Decl.action d.decl).contexts, t.IsRecord d.ns type := by
  obtain ⟨ns, names, parents, appliesTo, annotations, comments⟩ := d
  cases appliesTo with
  | none => simp [Decl.types, Decl.entityRefs, Decl.contexts, BindsRefs]
  | some a =>
    constructor
    · intro h
      obtain ⟨hprincipals, hresources, hcontext⟩ := h a rfl
      refine ⟨fun type h => ?_, ?_, fun type h => ?_⟩
      · exact (hcontext type (Option.mem_toList.1 h)).1
      · exact List.forall_mem_append.2 ⟨hprincipals, hresources⟩
      · exact (hcontext type (Option.mem_toList.1 h)).2
    · rintro ⟨htypes, hrefs, hcontexts⟩ a' ⟨⟩
      obtain ⟨hprincipals, hresources⟩ := List.forall_mem_append.1 hrefs
      refine ⟨hprincipals, hresources, fun type h => ⟨htypes type ?_, hcontexts type ?_⟩⟩
      · exact Option.mem_toList.2 h
      · exact Option.mem_toList.2 h

/-- What resolution looks at is what the declarations refer to, as long as every declaration
declares something. -/
theorem bound_iff (hnames : ∀ d ∈ s.declarations, d.decl.names ≠ []) : s.Bound ↔ s.WellBound := by
  constructor
  · intro h
    obtain ⟨hcommon, hreserved, hentity, haction⟩ := distinct_table_iff.1 h.distinct
    have hdecls : ∀ d ∈ s.declarations, (∀ type ∈ d.decl.types, s.table.Binds d.ns type) ∧
        s.table.BindsRefs d.ns d.decl.entityRefs ∧
        ∀ type ∈ d.decl.contexts, s.table.IsRecord d.ns type := by
      rintro ⟨ns, d⟩ hd
      cases d with
      | entity e =>
        have he := bindsEntity_iff.1 (h.entities ⟨ns, e⟩ (mem_table_entities.2 hd))
        exact ⟨he.1, he.2, nofun⟩
      | enum e => exact ⟨nofun, nofun, nofun⟩
      | action a =>
        -- An action is looked at once for each of its names, and not at all without one.
        obtain ⟨n, hn⟩ := List.exists_mem_of_ne_nil _ (hnames _ hd)
        have hnamed := mem_namedActions (x := (⟨ns, a⟩, n)).2 ⟨mem_table_actions.2 hd, hn⟩
        exact bindsAppliesTo_iff.1 (h.actions _ hnamed)
      | commonType c =>
        have hc := (bindsBodies_iff h.distinct).1 h.bodies ns c hd
        exact ⟨List.forall_mem_singleton.2 hc, nofun, nofun⟩
    exact {
      entityTypes := hentity
      commonTypes := hcommon
      actions := haction
      notReserved := hreserved
      types := fun d hd => (hdecls d hd).1
      acyclic := h.acyclic
      entityRefs := fun d hd => (hdecls d hd).2.1
      contexts := fun d hd => (hdecls d hd).2.2 }
  · intro h
    have hdistinct : s.table.Distinct :=
      distinct_table_iff.2 ⟨h.commonTypes, h.notReserved, h.entityTypes, h.actions⟩
    refine ⟨hdistinct, h.acyclic, (bindsBodies_iff hdistinct).2 fun ns c hc => ?_, fun d hd => ?_,
      fun x hx => ?_⟩
    · exact h.types _ hc c.type List.mem_cons_self
    · have hd := mem_table_entities.1 hd
      exact bindsEntity_iff.2 ⟨h.types _ hd, h.entityRefs _ hd⟩
    · have hd := mem_table_actions.1 (mem_namedActions.1 hx).1
      exact bindsAppliesTo_iff.2 ⟨h.types _ hd, h.entityRefs _ hd, h.contexts _ hd⟩

theorem declaresParents_iff (hnames : ∀ d ∈ s.declarations, d.decl.names ≠ []) :
    s.DeclaresParents ↔ ∀ a b, s.IsMember a b → b ∈ s.actionUids := by
  constructor
  · rintro h a b ⟨d, hd, -, hb⟩
    exact h d hd b hb
  · rintro h ⟨ns, d⟩ hd p hp
    cases d with
    | action a =>
      obtain ⟨n, hn⟩ := List.exists_mem_of_ne_nil _ (hnames _ hd)
      exact h ⟨actionType ns, n⟩ p ⟨_, hd, List.mem_map_of_mem hn, hp⟩
    | _ => cases hp

/-! ## The criterion -/

/-- A schema in which every declaration has a name resolves exactly if it is well bound, all parents
of its actions are declared and no action is a member of itself. An undefined parent is reported
only if it is well bound otherwise, a cycle of actions only if the parents are declared as well. -/
theorem resolve_isOk_iff (s : Schema) (hnames : ∀ d ∈ s.declarations, d.decl.names ≠ []) :
    ((∃ r, s.resolve = .ok r) ↔ s.WellBound ∧ s.DeclaresParents ∧ Acyclic s.IsMember) ∧
      (∀ action parent, s.resolve = .error (.undefinedAction action parent) →
        s.WellBound ∧ ¬s.DeclaresParents) ∧
      ∀ cycle, s.resolve = .error (.actionCycle cycle) →
        s.WellBound ∧ s.DeclaresParents ∧ ¬Acyclic s.IsMember := by
  have h := ends_resolve s
  rw [← bound_iff hnames, declaresParents_iff hnames]
  cases hr : s.resolve with
  | ok r =>
    cases h.of_ok hr with
    | mk hbound hentities hactions hclosed hacyclic =>
      rw [hactions.hasParent_eq hbound.distinct] at hacyclic
      have hparents := (hactions.closed_iff hbound.distinct).1 hclosed
      exact ⟨⟨fun _ => ⟨hbound, hparents, hacyclic⟩, fun _ => ⟨_, rfl⟩⟩, nofun, nofun⟩
  | error e =>
    rcases h.of_error hr with ⟨he, hbound⟩ | ⟨hbound, actions, hactions, he⟩
    · refine ⟨⟨nofun, fun h => absurd h.1 hbound⟩, ?_, ?_⟩
      · rintro action parent ⟨⟩
        exact (he trivial).elim
      · rintro cycle ⟨⟩
        exact (he trivial).elim
    · have hclosed := hactions.closed_iff hbound.distinct
      have hparent := hactions.hasParent_eq hbound.distinct
      cases e with
      | undefinedAction action parent =>
        have hopen := mt hclosed.2 he
        exact ⟨⟨nofun, fun h => absurd h.2.1 hopen⟩, fun _ _ _ => ⟨hbound, hopen⟩, nofun⟩
      | actionCycle cycle =>
        obtain ⟨hc, hcycle⟩ := he
        rw [hparent] at hcycle
        have hcyclic := hcycle.not_acyclic
        refine ⟨⟨nofun, fun h => absurd h.2.2 hcyclic⟩, nofun, fun _ _ => ?_⟩
        exact ⟨hbound, hclosed.1 hc, hcyclic⟩
      | _ => exact he.elim

theorem resolve_isOk_iff_follows :
    follows.WellBound ∧ follows.DeclaresParents ∧ Acyclic follows.IsMember := by
  have hnames : ∀ d ∈ follows.declarations, d.decl.names ≠ [] := by
    simp [follows, declarations, Item.decls, Decl.names]
  exact (resolve_isOk_iff follows hnames).1.1 exists_resolve_follows

end Schema

end CedarSchema
