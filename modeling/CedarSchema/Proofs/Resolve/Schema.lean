import CedarSchema.Proofs.Resolve.Expansion
import CedarSchema.Proofs.Resolve.Membership
import Mathlib.Data.List.Forall2

/-
  What the stages of resolution give. Each stage succeeds exactly if what it looks up is bound, and
  what it gives is then said by the declarations alone: names in full, references as they are
  looked up, types as what they stand for (`EntityOf`, `ActionOf`). The expansions that are kept go
  from stage to stage and leave no trace.
-/

namespace CedarSchema

namespace SymbolTable

variable {t : SymbolTable} {ns : String} {expanded : Expanded}

/-! ## Entity types -/

/-- Every reference names an entity type. -/
def BindsRefs (t : SymbolTable) (ns : String) (refs : List Path) : Prop :=
  ∀ p ∈ refs, ∃ name, t.lookupEntityType ns p = .ok name

/-- The names that references stand for. -/
def RefsOf (t : SymbolTable) (ns : String) : List Path → List String → Prop :=
  List.Forall₂ fun p name => t.lookupEntityType ns p = .ok name

theorem needs_lookupEntityType (t : SymbolTable) (ns : String) (p : Path) :
    Needs (∃ name, t.lookupEntityType ns p = .ok name) (t.lookupEntityType ns p)
      fun name => t.lookupEntityType ns p = .ok name := by
  have h := ends_lookupEntityType t ns p
  cases hp : t.lookupEntityType ns p with
  | ok name => exact Needs.ok ⟨name, rfl⟩ rfl
  | error e =>
    have he := h.of_error hp
    refine Needs.error ?_ (by simp)
    cases e with
    | undefinedAction action parent => exact he.elim
    | actionCycle cycle => exact he.elim
    | _ => exact id

theorem needs_resolveRefs (t : SymbolTable) (ns : String) (refs : List Path) :
    Needs (t.BindsRefs ns refs) (t.resolveRefs ns refs) (t.RefsOf ns refs) := by
  unfold BindsRefs resolveRefs
  induction refs with
  | nil => exact Needs.ok nofun .nil
  | cons p refs ih =>
    rw [List.mapM_cons, List.forall_mem_cons]
    refine (needs_lookupEntityType t ns p).bind fun name _ hname => ?_
    exact Needs.thenPure (ih.imp Iff.rfl fun names _ hnames => .cons hname hnames)

theorem needs_resolveShape (h : t.Ready expanded) (shape : Option (Record TypeExpr)) :
    Needs (∀ r ∈ shape, t.BindsRecord ns r) (t.resolveShape ns shape expanded) fun x =>
      Option.Rel (t.DenotesRecord ns) shape x.1 ∧ t.Ready x.2 := by
  cases shape with
  | none => exact Needs.ok nofun ⟨.none, h⟩
  | some r =>
    refine Needs.thenPure ((h.needs_resolveRecord r).imp (by simp) ?_)
    exact fun x _ hx => ⟨.some hx.1, hx.2⟩

theorem needs_resolveTags (h : t.Ready expanded) (tags : Option TypeExpr) :
    Needs (∀ type ∈ tags, t.Binds ns type) (t.resolveTags ns tags expanded) fun x =>
      Option.Rel (t.Denotes ns) tags x.1 ∧ t.Ready x.2 := by
  cases tags with
  | none => exact Needs.ok nofun ⟨.none, h⟩
  | some type =>
    refine Needs.thenPure ((h.needs_resolveType type).imp (by simp) ?_)
    exact fun x _ hx => ⟨.some hx.1, hx.2⟩

/-- All that an entity type refers to is bound. -/
structure BindsEntity (t : SymbolTable) (d : Scoped EntityDecl) : Prop where
  parents : t.BindsRefs d.ns d.decl.parents
  shape : ∀ r ∈ d.decl.shape, t.BindsRecord d.ns r
  tags : ∀ type ∈ d.decl.tags, t.Binds d.ns type

/-- The entity type that a declaration declares under one of its names. -/
structure EntityOf (t : SymbolTable) (d : Scoped EntityDecl) (name : String) (e : ResolvedEntity) :
    Prop where
  name : e.name = qualify d.ns name
  annotations : e.annotations = annotationDict d.decl.annotations
  parents : t.RefsOf d.ns d.decl.parents e.parents
  shape : Option.Rel (t.DenotesRecord d.ns) d.decl.shape e.shape
  tags : Option.Rel (t.Denotes d.ns) d.decl.tags e.tags

/-- Each declaration with each of its names. -/
def namedEntities (decls : List (Scoped EntityDecl)) : List (Scoped EntityDecl × String) :=
  decls.flatMap fun d => d.decl.names.map fun n => (d, n)

theorem needs_resolveEntity (h : t.Ready expanded) (d : Scoped EntityDecl) :
    Needs (t.BindsEntity d) (t.resolveEntity d expanded) fun x =>
      List.Forall₂ (t.EntityOf d) d.decl.names x.1 ∧ t.Ready x.2 := by
  rw [resolveEntity]
  have hbinds : (t.BindsRefs d.ns d.decl.parents ∧ (∀ r ∈ d.decl.shape, t.BindsRecord d.ns r) ∧
      ∀ type ∈ d.decl.tags, t.Binds d.ns type) ↔ t.BindsEntity d :=
    ⟨fun ⟨hp, hs, ht⟩ => ⟨hp, hs, ht⟩, fun ⟨hp, hs, ht⟩ => ⟨hp, hs, ht⟩⟩
  refine Needs.imp ((needs_resolveRefs t d.ns d.decl.parents).bind fun parents _ hparents => ?_)
    hbinds fun _ _ => id
  refine (needs_resolveShape h d.decl.shape).bind ?_
  rintro ⟨shape, expanded⟩ - ⟨hshape, h⟩
  refine Needs.thenPure ((needs_resolveTags h d.decl.tags).imp Iff.rfl ?_)
  rintro ⟨tags, expanded⟩ - ⟨htags, h⟩
  refine ⟨?_, h⟩
  rw [List.forall₂_map_right_iff, List.forall₂_same]
  exact fun n _ => ⟨rfl, rfl, hparents, hshape, htags⟩

theorem needs_resolveEntities (decls : List (Scoped EntityDecl)) (h : t.Ready expanded) :
    Needs (∀ d ∈ decls, t.BindsEntity d) (t.resolveEntities decls expanded) fun x =>
      List.Forall₂ (fun y => t.EntityOf y.1 y.2) (namedEntities decls) x.1 ∧ t.Ready x.2 := by
  induction decls generalizing expanded with
  | nil => exact Needs.ok nofun ⟨.nil, h⟩
  | cons d decls ih =>
    rw [resolveEntities, List.forall_mem_cons]
    refine (needs_resolveEntity h d).bind ?_
    rintro ⟨entities, expanded⟩ - ⟨hentities, h⟩
    refine Needs.thenPure ((ih h).imp Iff.rfl ?_)
    rintro ⟨others, expanded⟩ - ⟨hothers, h⟩
    have hnamed : List.Forall₂ (fun y => t.EntityOf y.1 y.2) (d.decl.names.map fun n => (d, n))
        entities := List.forall₂_map_left_iff.2 hentities
    exact ⟨List.rel_append hnamed hothers, h⟩

/-! ## Actions -/

/-- All that an action refers to is bound, and its context is a record. -/
structure BindsAppliesTo (t : SymbolTable) (ns : String) (a : AppliesTo) : Prop where
  principals : t.BindsRefs ns (a.principals.getD [])
  resources : t.BindsRefs ns (a.resources.getD [])
  context : ∀ type ∈ a.context, t.Binds ns type ∧ t.IsRecord ns type

/-- The fields of a context that may be left out. -/
inductive ContextOf (t : SymbolTable) (ns : String) : Option TypeExpr → Fields → Prop
  | none : ContextOf t ns none []
  | some {type : TypeExpr} {fields : Fields} (h : t.Denotes ns type (.record fields)) :
    ContextOf t ns (some type) fields

/-- What an action applies to. -/
structure AppliesToOf (t : SymbolTable) (ns : String) (a : AppliesTo) (r : ResolvedAppliesTo) :
    Prop where
  principals : t.RefsOf ns (a.principals.getD []) r.principals
  resources : t.RefsOf ns (a.resources.getD []) r.resources
  context : t.ContextOf ns a.context r.context

/-- The action that a declaration declares under one of its names. -/
structure ActionOf (t : SymbolTable) (d : Scoped ActionDecl) (name : String) (a : ResolvedAction) :
    Prop where
  uid : a.uid = ⟨actionType d.ns, name⟩
  annotations : a.annotations = annotationDict d.decl.annotations
  parents : a.parents = d.decl.parents.map (parentUid d.ns)
  appliesTo : Option.Rel (t.AppliesToOf d.ns) d.decl.appliesTo a.appliesTo

theorem needs_resolveContext (h : t.Ready expanded) (uid : EntityUid) (context : Option TypeExpr) :
    Needs (∀ type ∈ context, t.Binds ns type ∧ t.IsRecord ns type)
      (t.resolveContext ns uid context expanded)
      fun x => t.ContextOf ns context x.1 ∧ t.Ready x.2 := by
  cases context with
  | none => exact Needs.ok nofun ⟨.none, h⟩
  | some type =>
    rw [resolveContext]
    have hsome (p : TypeExpr → Prop) : (∀ type' ∈ some type, p type') ↔ p type := by simp
    rw [hsome]
    refine (h.needs_resolveType type).bind ?_
    rintro ⟨type', expanded⟩ - ⟨htype, h⟩
    have hrecord := htype.isRecord_iff
    split
    · rename_i fields expanded' heq
      cases heq
      exact Needs.ok (hrecord.2 ⟨fields, rfl⟩) ⟨.some htype, h⟩
    · rename_i other expanded' hother heq
      cases heq
      refine Needs.error id fun hr => ?_
      obtain ⟨fields, hfields⟩ := hrecord.1 hr
      exact hother fields hfields

theorem needs_resolveAppliesTo (h : t.Ready expanded) (uid : EntityUid)
    (appliesTo : Option AppliesTo) :
    Needs (∀ a ∈ appliesTo, t.BindsAppliesTo ns a) (t.resolveAppliesTo ns uid appliesTo expanded)
      fun x => Option.Rel (t.AppliesToOf ns) appliesTo x.1 ∧ t.Ready x.2 := by
  cases appliesTo with
  | none => exact Needs.ok nofun ⟨.none, h⟩
  | some a =>
    rw [resolveAppliesTo]
    have hbinds : (t.BindsRefs ns (a.principals.getD []) ∧ t.BindsRefs ns (a.resources.getD []) ∧
        ∀ type ∈ a.context, t.Binds ns type ∧ t.IsRecord ns type) ↔
        ∀ a' ∈ some a, t.BindsAppliesTo ns a' := by
      constructor
      · rintro ⟨hp, hr, hc⟩ a' ⟨⟩
        exact ⟨hp, hr, hc⟩
      · intro h
        obtain ⟨hp, hr, hc⟩ := h a rfl
        exact ⟨hp, hr, hc⟩
    refine Needs.imp ((needs_resolveRefs t ns _).bind fun principals _ hprincipals => ?_) hbinds
      fun _ _ => id
    refine (needs_resolveRefs t ns _).bind fun resources _ hresources => ?_
    refine Needs.thenPure ((needs_resolveContext h uid a.context).imp Iff.rfl ?_)
    rintro ⟨context, expanded⟩ - ⟨hcontext, h⟩
    exact ⟨.some ⟨hprincipals, hresources, hcontext⟩, h⟩

theorem needs_resolveAction (h : t.Ready expanded) (d : Scoped ActionDecl) (name : String) :
    Needs (∀ a ∈ d.decl.appliesTo, t.BindsAppliesTo d.ns a) (t.resolveAction d name expanded)
      fun x => t.ActionOf d name x.1 ∧ t.Ready x.2 := by
  rw [resolveAction]
  refine Needs.thenPure ((needs_resolveAppliesTo h _ d.decl.appliesTo).imp Iff.rfl ?_)
  rintro ⟨appliesTo, expanded⟩ - ⟨happliesTo, h⟩
  exact ⟨⟨rfl, rfl, rfl, happliesTo⟩, h⟩

theorem needs_resolveActions (named : List (Scoped ActionDecl × String)) (h : t.Ready expanded) :
    Needs (∀ x ∈ named, ∀ a ∈ x.1.decl.appliesTo, t.BindsAppliesTo x.1.ns a)
      (t.resolveActions named expanded)
      fun x => List.Forall₂ (fun y => t.ActionOf y.1 y.2) named x.1 ∧ t.Ready x.2 := by
  induction named generalizing expanded with
  | nil => exact Needs.ok nofun ⟨.nil, h⟩
  | cons x named ih =>
    obtain ⟨d, name⟩ := x
    rw [resolveActions, List.forall_mem_cons]
    refine (needs_resolveAction h d name).bind ?_
    rintro ⟨action, expanded⟩ - ⟨haction, h⟩
    refine Needs.thenPure ((ih h).imp Iff.rfl ?_)
    rintro ⟨others, expanded⟩ - ⟨hothers, h⟩
    exact ⟨.cons haction hothers, h⟩

end SymbolTable

/-! ## Schemas -/

namespace Schema

variable {s : Schema}

/-- All that is asked of a schema before the membership of actions. -/
structure Bound (s : Schema) : Prop where
  distinct : s.table.Distinct
  acyclic : Acyclic s.table.Refers
  bodies : s.table.BindsBodies
  entities : ∀ d ∈ s.table.entities, s.table.BindsEntity d
  actions : ∀ x ∈ s.table.namedActions, ∀ a ∈ x.1.decl.appliesTo, s.table.BindsAppliesTo x.1.ns a

/-- The entity types that a schema declares. -/
def EntitiesOf (s : Schema) (entities : List ResolvedEntity) : Prop :=
  List.Forall₂ (fun x => s.table.EntityOf x.1 x.2) (SymbolTable.namedEntities s.table.entities)
    entities

/-- The enumerated entity types that a schema declares. -/
def enums (s : Schema) : List ResolvedEnum := s.table.enums.flatMap SymbolTable.resolveEnum

/-- The actions that a schema declares. -/
def ActionsOf (s : Schema) (actions : List ResolvedAction) : Prop :=
  List.Forall₂ (fun x => s.table.ActionOf x.1 x.2) s.table.namedActions actions

/-- The actions under their identities. -/
def actionDict (actions : List ResolvedAction) : ActionDict :=
  .ofList (actions.map fun a => (a.uid, a))

/-- What a schema resolves to. -/
inductive ResolvesTo (s : Schema) : ResolvedSchema → Prop
  | mk {entities : List ResolvedEntity} {actions : List ResolvedAction} (hbound : s.Bound)
      (hentities : s.EntitiesOf entities) (hactions : s.ActionsOf actions)
      (hclosed : (actionDict actions).Closed) (hacyclic : Acyclic (actionDict actions).HasParent) :
    ResolvesTo s {
      entities := .ofList (entities.map fun e => (e.name, e))
      enums := .ofList (s.enums.map fun e => (e.name, e))
      actions := actionDict actions }

/-- Errors about the membership of actions come after all others. -/
def Explains (s : Schema) (e : ResolveError) : Prop :=
  ¬e.IsMembership ∧ ¬s.Bound ∨
    s.Bound ∧ ∃ actions, s.ActionsOf actions ∧ (actionDict actions).Faults e

theorem ends_bind_of_needs {α β : Type} {p : Prop} {r : Except ResolveError α} {P : α → Prop}
    {f : α → Except ResolveError β} {Q : β → Prop} (hr : Needs p r P) (hp : s.Bound → p)
    (hf : ∀ a, p → P a → Ends s.Explains (f a) Q) : Ends s.Explains (r >>= f) Q :=
  Ends.bind (Ends.impError hr fun _ h => .inl ⟨h.1, fun hs => h.2 (hp hs)⟩)
    fun a h => hf a h.1 h.2

/-- A schema resolves to what it stands for, and every error is right. -/
theorem ends_resolve (s : Schema) : Ends s.Explains s.resolve s.ResolvesTo := by
  unfold resolve
  refine ends_bind_of_needs (SymbolTable.needs_ofSchema s) Bound.distinct fun t hdistinct ht => ?_
  subst ht
  refine ends_bind_of_needs (SymbolTable.needs_expandCommonTypes _) (fun h => ⟨h.acyclic, h.bodies⟩)
    fun expanded ⟨hrefers, hbodies⟩ hexpanded => ?_
  refine ends_bind_of_needs (SymbolTable.needs_resolveEntities _ hexpanded) Bound.entities ?_
  rintro ⟨entities, expanded⟩ hbentities ⟨hentities, hexpanded⟩
  refine ends_bind_of_needs (SymbolTable.needs_resolveActions _ hexpanded) Bound.actions ?_
  rintro ⟨actions, expanded⟩ hbactions ⟨hactions, -⟩
  have hbound : s.Bound := ⟨hdistinct, hrefers, hbodies, hbentities, hbactions⟩
  have hcheck := ActionDict.ends_check (actionDict actions)
  refine Ends.bind (hcheck.impError fun e he => .inr ⟨hbound, actions, hactions, he⟩) ?_
  rintro - ⟨hclosed, hacyclic⟩
  exact .mk hbound hentities hactions hclosed hacyclic

end Schema

end CedarSchema
