import CedarSchema.Proofs.Resolve.Criterion
import CedarSchema.Proofs.Resolve.Meaning

/-
  What it is for a schema to mean something, said of its declarations alone. Every declaration has
  to stand for something, no name may be declared twice, and membership of actions has to be closed
  and without cycles; the schema then means what its declarations stand for (`Schema.Means`). This
  is all there is to resolving: a schema resolves exactly to what it means
  (`Schema.resolve_eq_ok_iff`), so whatever keeps the meaning keeps the result. The keys of what it
  means are the names it declares, each once.
-/

namespace CedarSchema

open SymbolTable

namespace SymbolTable

variable {t : SymbolTable} {ns n : String} {expanded : Expanded}

/-! ## What is bound stands for something -/

section

variable (hr : t.Ready expanded)

include hr

theorem Ready.exists_denotes {type : TypeExpr} (h : t.Binds ns type) :
    ∃ a, t.Denotes ns type a := by
  obtain ⟨x, -, hx, -⟩ := (hr.needs_resolveType type).exists_ok h
  exact ⟨x.1, hx⟩

theorem Ready.exists_entityOf {d : Scoped EntityDecl} (h : t.BindsEntity d) (n : String) :
    ∃ e, t.EntityOf d n e := by
  obtain ⟨parents, -, hparents⟩ := (needs_resolveRefs t d.ns d.decl.parents).exists_ok h.parents
  obtain ⟨shape, -, hshape, -⟩ := (needs_resolveShape hr d.decl.shape).exists_ok h.shape
  obtain ⟨tags, -, htags, -⟩ := (needs_resolveTags hr d.decl.tags).exists_ok h.tags
  exact ⟨⟨qualify d.ns n, annotationDict d.decl.annotations, parents, shape.1, tags.1⟩,
    rfl, rfl, hparents, hshape, htags⟩

theorem Ready.exists_actionOf {d : Scoped ActionDecl}
    (h : ∀ a ∈ d.decl.appliesTo, t.BindsAppliesTo d.ns a) (n : String) :
    ∃ a, t.ActionOf d n a := by
  obtain ⟨x, -, hx, -⟩ := (needs_resolveAction hr d n).exists_ok h
  exact ⟨x.1, hx⟩

end

/-! ## What stands for something is bound -/

theorem exists_of_rel {α β : Type} {R : α → β → Prop} {a : Option α} {b : Option β}
    (h : Option.Rel R a b) : ∀ x ∈ a, ∃ y, b = some y ∧ R x y := by
  intro x hx
  cases h with
  | none => cases hx
  | some h =>
    cases hx
    exact ⟨_, rfl, h⟩

theorem RefsOf.binds {refs : List Path} {names : List String} (h : t.RefsOf ns refs names) :
    t.BindsRefs ns refs := by
  intro p hp
  obtain ⟨name, -, hname⟩ := exists_of_forall₂_left h hp
  exact ⟨name, hname⟩

theorem EntityOf.binds {d : Scoped EntityDecl} {e : ResolvedEntity} (h : t.EntityOf d n e) :
    t.BindsEntity d where
  parents := h.parents.binds
  shape r hr := by
    obtain ⟨fields, -, hfields⟩ := exists_of_rel h.shape r hr
    exact hfields.binds
  tags type htype := by
    obtain ⟨a, -, ha⟩ := exists_of_rel h.tags type htype
    exact ha.binds

theorem ContextOf.binds {context : Option TypeExpr} {fields : Fields}
    (h : t.ContextOf ns context fields) :
    ∀ type ∈ context, t.Binds ns type ∧ t.IsRecord ns type := by
  intro type htype
  cases h with
  | none => cases htype
  | some h =>
    cases htype
    exact ⟨h.binds, h.isRecord_iff.2 ⟨fields, rfl⟩⟩

theorem ActionOf.binds {d : Scoped ActionDecl} {a : ResolvedAction} (h : t.ActionOf d n a) :
    ∀ x ∈ d.decl.appliesTo, t.BindsAppliesTo d.ns x := by
  intro x hx
  obtain ⟨y, -, hy⟩ := exists_of_rel h.appliesTo x hx
  exact ⟨hy.principals.binds, hy.resources.binds, hy.context.binds⟩

end SymbolTable

/-! ## Meaning -/

namespace ResolvedSchema

theorem Says.unique {s : Schema} {r r' : ResolvedSchema} (h : r.Says s) (h' : r'.Says s) :
    r = r' := by
  obtain ⟨entities, enums, actions⟩ := r
  obtain ⟨entities', enums', actions'⟩ := r'
  have hentities : entities = entities' := Dict.ext_find? fun k => Option.ext fun e =>
    (h.entities k e).trans (h'.entities k e).symm
  have henums : enums = enums' := Dict.ext_find? fun k => Option.ext fun e =>
    (h.enums k e).trans (h'.enums k e).symm
  have hactions : actions = actions' := Dict.ext_find? fun k => Option.ext fun a =>
    (h.actions k a).trans (h'.actions k a).symm
  rw [hentities, henums, hactions]

end ResolvedSchema

namespace Schema

variable {s : Schema} {r : ResolvedSchema}

/-- The schema means `r`. A declaration of entity types without a name is looked at all the same,
one of actions is not. -/
structure Means (s : Schema) (r : ResolvedSchema) : Prop where
  distinct : s.table.Distinct
  commonTypes : ∀ ns d, ⟨ns, .commonType d⟩ ∈ s.declarations →
    ∃ type, s.table.Denotes ns d.type type
  entities : ∀ ns d, ⟨ns, .entity d⟩ ∈ s.declarations → ∀ n, ∃ e, s.table.EntityOf ⟨ns, d⟩ n e
  actions : ∀ ns d, ⟨ns, .action d⟩ ∈ s.declarations → ∀ n ∈ d.names,
    ∃ a, s.table.ActionOf ⟨ns, d⟩ n a
  closed : ∀ a b, s.IsMember a b → b ∈ s.actionUids
  acyclic : Acyclic s.IsMember
  entries : r.Says s

/-- A schema resolves exactly if all it refers to is bound and the membership of its actions is
closed and without cycles. -/
theorem exists_resolve_iff (s : Schema) : (∃ r, s.resolve = .ok r) ↔
    s.Bound ∧ (∀ a b, s.IsMember a b → b ∈ s.actionUids) ∧ Acyclic s.IsMember := by
  have h := ends_resolve s
  cases hr : s.resolve with
  | ok r =>
    cases h.of_ok hr with
    | mk hbound _ hactions hclosed hacyclic =>
      rw [hactions.hasParent_eq hbound.distinct] at hacyclic
      have hparents := (hactions.closed_iff hbound.distinct).1 hclosed
      exact ⟨fun _ => ⟨hbound, hparents, hacyclic⟩, fun _ => ⟨_, rfl⟩⟩
  | error e =>
    refine ⟨nofun, fun ⟨hbound, hparents, hacyclic⟩ => ?_⟩
    rcases h.of_error hr with ⟨-, hno⟩ | ⟨-, actions, hactions, he⟩
    · exact (hno hbound).elim
    · have hclosed := (hactions.closed_iff hbound.distinct).2 hparents
      rw [← hactions.hasParent_eq hbound.distinct] at hacyclic
      cases e with
      | undefinedAction action parent => exact (he hclosed).elim
      | actionCycle cycle => exact (he.2.not_acyclic hacyclic).elim
      | _ => exact he.elim

/-- If every declaration stands for something, all that the declarations refer to is bound. -/
theorem Means.bound (h : s.Means r) : s.Bound := by
  have hbody (name : String) (d : Scoped CommonTypeDecl) (hd : s.table.commonType? name = some d) :
      ∃ type, s.table.Denotes d.ns d.decl.type type := by
    have hmem := (commonType?_eq_some_iff h.distinct.commonTypes).1 hd
    exact h.commonTypes d.ns d.decl (mem_table_commonTypes.1 hmem).2
  refine ⟨h.distinct, acyclic_of_denotes hbody, fun name d hd => ?_, fun d hd => ?_, fun x hx => ?_⟩
  · obtain ⟨type, htype⟩ := hbody name d hd
    exact htype.binds
  · obtain ⟨e, he⟩ := h.entities d.ns d.decl (mem_table_entities.1 hd) ""
    exact he.binds
  · obtain ⟨hd, hn⟩ := mem_namedActions.1 hx
    obtain ⟨a, ha⟩ := h.actions x.1.ns x.1.decl (mem_table_actions.1 hd) x.2 hn
    exact ha.binds

theorem Means.ready (h : s.Means r) : s.table.Ready .empty :=
  ⟨h.bound.acyclic, h.bound.bodies, sound_empty⟩

/-- A schema resolves exactly to what it means. -/
theorem resolve_eq_ok_iff (s : Schema) (r : ResolvedSchema) : s.resolve = .ok r ↔ s.Means r := by
  constructor
  · intro hr
    obtain ⟨hbound, hclosed, hacyclic⟩ := (exists_resolve_iff s).1 ⟨r, hr⟩
    have hready : s.table.Ready .empty := ⟨hbound.acyclic, hbound.bodies, sound_empty⟩
    refine ⟨hbound.distinct, fun ns d hd => ?_, fun ns d hd n => ?_, fun ns d hd n hn => ?_,
      hclosed, hacyclic, says_of_resolve hr⟩
    · exact hready.exists_denotes ((bindsBodies_iff hbound.distinct).1 hbound.bodies ns d hd)
    · exact hready.exists_entityOf (hbound.entities ⟨ns, d⟩ (mem_table_entities.2 hd)) n
    · have hx := mem_namedActions (x := (⟨ns, d⟩, n)).2 ⟨mem_table_actions.2 hd, hn⟩
      exact hready.exists_actionOf (hbound.actions _ hx) n
  · intro h
    obtain ⟨r', hr'⟩ := (exists_resolve_iff s).2 ⟨h.bound, h.closed, h.acyclic⟩
    rw [hr', h.entries.unique (says_of_resolve hr')]

/-! ## Keys -/

/-- Keys of a dictionary and names without repetition, each one of the others. -/
theorem keys_perm_of_find? {κ α : Type} [Ord κ] [Std.TransOrd κ] [Std.LawfulEqOrd κ]
    {d : Dict κ α} {names : List κ} (hnames : names.Nodup)
    (h : ∀ k, (∃ a, d.find? k = some a) ↔ k ∈ names) : d.keys.Perm names := by
  refine (List.perm_ext_iff_of_nodup d.nodup_keys hnames).2 fun k => ?_
  rw [← h, ← Dict.contains_iff, Dict.contains, Option.isSome_iff_exists]

namespace Means

variable (h : s.Means r)

include h

theorem nodup_names : (s.entityNames ++ s.enumNames).Nodup :=
  (List.flatMap_append_perm _ _ _).nodup_iff.2 (distinct_table_iff.1 h.distinct).2.2.1

theorem keys_entities_perm : r.entities.keys.Perm s.entityNames := by
  refine keys_perm_of_find? (List.nodup_append.1 h.nodup_names).1 fun name => ?_
  simp only [h.entries.entities, entityNames, List.mem_flatMap]
  constructor
  · rintro ⟨e, ns, d, n, hd, hn, rfl, -⟩
    exact ⟨_, hd, List.mem_map_of_mem hn⟩
  · rintro ⟨⟨ns, d⟩, hd, hname⟩
    cases d <;> try cases hname
    rename_i d
    obtain ⟨n, hn, rfl⟩ := List.mem_map.1 hname
    obtain ⟨e, he⟩ := h.entities ns d hd n
    exact ⟨e, ns, d, n, hd, hn, rfl, he⟩

theorem keys_enums_perm : r.enums.keys.Perm s.enumNames := by
  refine keys_perm_of_find? (List.nodup_append.1 h.nodup_names).2.1 fun name => ?_
  simp only [h.entries.enums, enumNames, List.mem_flatMap]
  constructor
  · rintro ⟨e, ns, d, n, hd, hn, rfl, -⟩
    exact ⟨_, hd, List.mem_map_of_mem hn⟩
  · rintro ⟨⟨ns, d⟩, hd, hname⟩
    cases d <;> try cases hname
    rename_i d
    obtain ⟨n, hn, rfl⟩ := List.mem_map.1 hname
    exact ⟨_, ns, d, n, hd, hn, rfl, rfl⟩

theorem nodup_keys : (r.entities.keys ++ r.enums.keys).Nodup :=
  (h.keys_entities_perm.append h.keys_enums_perm).nodup_iff.2 h.nodup_names

end Means

end Schema

end CedarSchema
