import CedarSchema.Proofs.Resolve.Schema
import Mathlib.Data.List.Perm.Basic

/-
  The keys of a resolved schema. Every result stands under the name it bears itself, and these names
  are the declared ones, each once. The parents that resolved actions have are those that the
  declarations give them.
-/

namespace CedarSchema

open SymbolTable

section

variable {α β γ : Type} {R : α → β → Prop}

theorem map_eq_of_forall₂ {l : List α} {m : List β} {f : α → γ} {g : β → γ} (h : List.Forall₂ R l m)
    (hfg : ∀ a b, R a b → f a = g b) : l.map f = m.map g := by
  induction h with
  | nil => rfl
  | cons hab _ ih => rw [List.map_cons, List.map_cons, hfg _ _ hab, ih]

theorem exists_of_forall₂_left {l : List α} {m : List β} {a : α} (h : List.Forall₂ R l m)
    (ha : a ∈ l) : ∃ b ∈ m, R a b := by
  induction h with
  | nil => cases ha
  | cons hab _ ih =>
    rcases List.mem_cons.1 ha with rfl | ha
    · exact ⟨_, List.mem_cons_self, hab⟩
    · obtain ⟨b, hb, hab⟩ := ih ha
      exact ⟨b, List.mem_cons_of_mem _ hb, hab⟩

theorem exists_of_forall₂_right {l : List α} {m : List β} {b : β} (h : List.Forall₂ R l m)
    (hb : b ∈ m) : ∃ a ∈ l, R a b :=
  exists_of_forall₂_left h.flip hb

theorem flatMap_flatMap_eq {f : α → List β} {g : β → List γ} {h : α → List γ}
    (hfg : ∀ a, (f a).flatMap g = h a) (l : List α) : (l.flatMap f).flatMap g = l.flatMap h := by
  rw [List.flatMap_assoc]
  exact congrArg l.flatMap (funext hfg)

end

/-! ## Names -/

namespace SymbolTable

variable {t : SymbolTable}

theorem mem_namedActions {x : Scoped ActionDecl × String} :
    x ∈ t.namedActions ↔ x.1 ∈ t.actions ∧ x.2 ∈ x.1.decl.names := by
  simp [namedActions, Prod.ext_iff]

end SymbolTable

namespace Schema

variable {s : Schema} {entities : List ResolvedEntity} {actions : List ResolvedAction}

theorem namedActions_map_uid (s : Schema) :
    s.table.namedActions.map (fun x => EntityUid.mk (actionType x.1.ns) x.2) =
      s.table.actionUids := by
  have hdecl (d : Scoped Decl) : (d.actions.flatMap fun a => a.decl.names.map fun n =>
      EntityUid.mk (actionType a.ns) n) = d.actionUids := by
    obtain ⟨ns, d⟩ := d
    cases d <;> simp [Scoped.actions, Scoped.actionUids]
  unfold namedActions
  rw [List.map_flatMap]
  simp only [List.map_map, Function.comp_def]
  exact flatMap_flatMap_eq hdecl s.scopedDecls

theorem namedEntities_map_name (s : Schema) :
    (namedEntities s.table.entities).map (fun x => qualify x.1.ns x.2) =
      s.scopedDecls.flatMap Scoped.entityNames := by
  have hdecl (d : Scoped Decl) :
      (d.entities.flatMap fun e => e.decl.names.map (qualify e.ns)) = d.entityNames := by
    obtain ⟨ns, d⟩ := d
    cases d <;> simp [Scoped.entities, Scoped.entityNames]
  unfold namedEntities
  rw [List.map_flatMap]
  simp only [List.map_map, Function.comp_def]
  exact flatMap_flatMap_eq hdecl s.scopedDecls

theorem enums_map_name (s : Schema) :
    s.enums.map ResolvedEnum.name = s.scopedDecls.flatMap Scoped.enumNames := by
  have hdecl (d : Scoped Decl) :
      (d.enums.flatMap fun e => e.decl.names.map (qualify e.ns)) = d.enumNames := by
    obtain ⟨ns, d⟩ := d
    cases d <;> simp [Scoped.enums, Scoped.enumNames]
  unfold enums
  rw [List.map_flatMap]
  simp only [List.map_map, Function.comp_def, resolveEnum]
  exact flatMap_flatMap_eq hdecl s.scopedDecls

theorem ActionsOf.map_uid (h : s.ActionsOf actions) :
    actions.map ResolvedAction.uid = s.table.actionUids := by
  rw [← namedActions_map_uid]
  exact (map_eq_of_forall₂ h fun x a h => h.uid.symm).symm

theorem EntitiesOf.map_name (h : s.EntitiesOf entities) :
    entities.map ResolvedEntity.name = s.scopedDecls.flatMap Scoped.entityNames := by
  rw [← namedEntities_map_name]
  exact (map_eq_of_forall₂ h fun x e h => h.name.symm).symm

/-- The entity types that are resolved are all that are declared. -/
theorem EntitiesOf.map_name_perm (h : s.EntitiesOf entities) :
    (entities.map ResolvedEntity.name ++ s.enums.map ResolvedEnum.name).Perm
      s.table.entityTypes := by
  rw [h.map_name, enums_map_name]
  exact List.flatMap_append_perm s.scopedDecls _ _

end Schema

/-! ## Parents -/

/-- The parents that a declaration gives to each action it declares. -/
def Scoped.parentUids (d : Scoped Decl) : List EntityUid :=
  match d.decl with
  | .action a => a.parents.map (parentUid d.ns)
  | _ => []

/-- The action `a` is declared with the parent `b`. -/
def Schema.IsMember (s : Schema) (a b : EntityUid) : Prop :=
  ∃ d ∈ s.declarations, a ∈ d.actionUids ∧ b ∈ d.parentUids

theorem ActionDict.closed_iff {actions : ActionDict} :
    actions.Closed ↔ ∀ a b, actions.HasParent a b → b ∈ actions.keys := by
  constructor
  · rintro h a b ⟨action, haction, hb⟩
    exact h action (List.mem_map_of_mem (f := Prod.snd) (Dict.mem_entries_iff.2 haction)) b hb
  · intro h action haction b hb
    obtain ⟨⟨a, action⟩, hmem, rfl⟩ := List.mem_map.1 haction
    exact h a b ⟨action, Dict.mem_entries_iff.1 hmem, hb⟩

namespace Schema

variable {s : Schema} {actions : List ResolvedAction}

theorem isMember_iff {a b : EntityUid} : s.IsMember a b ↔
    ∃ x ∈ s.table.namedActions, a = ⟨actionType x.1.ns, x.2⟩ ∧
      b ∈ x.1.decl.parents.map (parentUid x.1.ns) := by
  constructor
  · rintro ⟨⟨ns, d⟩, hd, ha, hb⟩
    cases d with
    | action d =>
      obtain ⟨n, hn, rfl⟩ := List.mem_map.1 ha
      exact ⟨(⟨ns, d⟩, n), mem_namedActions.2 ⟨mem_table_actions.2 hd, hn⟩, rfl, hb⟩
    | _ => cases ha
  · rintro ⟨⟨⟨ns, d⟩, n⟩, hx, rfl, hb⟩
    obtain ⟨hd, hn⟩ := mem_namedActions.1 hx
    exact ⟨_, mem_table_actions.1 hd, List.mem_map_of_mem hn, hb⟩

variable (hs : s.table.Distinct) (h : s.ActionsOf actions)

include hs h

theorem ActionsOf.keys_perm : (actionDict actions).keys.Perm s.actionUids := by
  have hnodup : (actions.map ResolvedAction.uid).Nodup := h.map_uid ▸ hs.actionUids
  refine (Dict.keys_ofList_map_perm hnodup).trans ?_
  rw [h.map_uid]
  exact s.scopedDecls_perm.flatMap_right _

/-- Resolved actions have the parents that are declared. -/
theorem ActionsOf.hasParent_iff {a b : EntityUid} :
    (actionDict actions).HasParent a b ↔ s.IsMember a b := by
  have hnodup : (actions.map ResolvedAction.uid).Nodup := h.map_uid ▸ hs.actionUids
  have hfind {k : EntityUid} {action : ResolvedAction} :=
    Dict.find?_ofList_map_iff hnodup (k := k) (a := action)
  rw [isMember_iff]
  constructor
  · rintro ⟨action, haction, hb⟩
    obtain ⟨hmem, rfl⟩ := hfind.1 haction
    obtain ⟨x, hx, hof⟩ := exists_of_forall₂_right h hmem
    exact ⟨x, hx, hof.uid, hof.parents ▸ hb⟩
  · rintro ⟨x, hx, rfl, hb⟩
    obtain ⟨action, hmem, hof⟩ := exists_of_forall₂_left h hx
    exact ⟨action, hfind.2 ⟨hmem, hof.uid⟩, hof.parents ▸ hb⟩

theorem ActionsOf.closed_iff : (actionDict actions).Closed ↔
    ∀ a b, s.IsMember a b → b ∈ s.actionUids := by
  rw [ActionDict.closed_iff]
  simp only [h.hasParent_iff hs, (h.keys_perm hs).mem_iff]

theorem ActionsOf.hasParent_eq : (actionDict actions).HasParent = s.IsMember :=
  funext fun _ => funext fun _ => propext (h.hasParent_iff hs)

end Schema

/-! ## One schema -/

namespace Schema

/-- Users who follow users, declared in two blocks of one namespace. -/
def follows : Schema where
  items := [
    .block {
      path := ⟨["Social"]⟩
      decls := [
        .commonType { name := "People", type := .set (.path ⟨["User"]⟩) },
        .entity {
          names := ["User", "Admin"]
          parents := [⟨["Social", "User"]⟩]
          shape := some { attributes := [{ name := "follows", type := .path ⟨["People"]⟩ }] } },
        .action { names := ["read"] }] },
    .block {
      path := ⟨["Social"]⟩
      decls := [
        .action {
          names := ["follow"]
          parents := [{ id := "read" }]
          appliesTo := some {
            principals := some [⟨["User"]⟩]
            resources := some [⟨["Admin"]⟩]
            context := some (.record {
              attributes := [{ name := "by", type := .path ⟨["Social", "User"]⟩ }] }) } }] }]

theorem exists_resolve_follows : ∃ r, follows.resolve = .ok r := by
  have hlt : compare (EntityUid.mk "Social::Action" "follow") ⟨"Social::Action", "read"⟩ = .lt := by
    cbv
  have hgt := Std.OrientedCmp.gt_iff_lt.2 hlt
  simp [follows, Schema.resolve, ofSchema, scopedDecls, namespaces, Dict.append, Dict.insert,
    Dict.empty, insertEntry, Dict.find?, findEntry, Item.namespaceName, Item.decls, Path.text,
    Text.join, declare, isReservedTypeName, reservedTypeNames, declareCommonType, hasCommonType,
    commonType?, declareEntityType, hasEntityType, declareAction, qualify, actionType, bind,
    Except.bind, pure, Except.pure, expandCommonTypes, expandAll, expand_eq, resolveType,
    lookupType, Path.isQualified, bindUnqualified, bindFull, Path.basename, builtinNamespace,
    resolveEntities, resolveEntity, resolveRefs, lookupEntityType, entityCandidates,
    resolveShape, resolveFields, resolveTags, resolveActions, namedActions, resolveAction,
    resolveAppliesTo, resolveContext, builtinType, Functor.map, Except.map, Dict.contains,
    ActionDict.check, ActionDict.danglingParent, Dict.ofList, Dict.keys, Dict.values, parentUid,
    ActionDict.visit_eq, ActionDict.visitAll, hlt, hgt]

end Schema

end CedarSchema
