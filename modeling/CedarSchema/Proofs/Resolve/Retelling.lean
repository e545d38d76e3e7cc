import CedarSchema.Proofs.Resolve.Judgement

/-
  One schema told again as another. Declarations may be regrouped and reordered, comments changed,
  and a reference to an entity type may become a plain name, as long as every reference still finds
  what it found before (`Retells`). A type that is told again then stands for the same thing, by
  induction on what it stands for: the body of a common type that is met on the way is told again as
  well (`Retells.denotes`). So a schema and one that retells all of it, and nothing else, mean the
  same (`Schema.Retells.means`).
-/

namespace CedarSchema

namespace SymbolTable

variable {t t' : SymbolTable} {ns n : String}

/-! ## Types -/

mutual

/-- By the table `t'` the second type says in the namespace `ns` what the first says by `t`. -/
inductive Retells (t t' : SymbolTable) (ns : String) : TypeExpr → TypeExpr → Prop
  | path {p : Path} (h : ∀ b, t.lookupType ns p = .ok b → t'.lookupType ns p = .ok b) :
    Retells t t' ns (.path p) (.path p)
  | entity {p : Path}
      (h : ∀ name, t.lookupEntityType ns p = .ok name → t'.lookupEntityType ns p = .ok name) :
    Retells t t' ns (.entity p) (.entity p)
  /-- A plain name may take the place of a reference to an entity type. -/
  | plain {p : Path}
      (h : ∀ name, t.lookupEntityType ns p = .ok name → t'.Denotes ns (.path p) (.entity name)) :
    Retells t t' ns (.entity p) (.path p)
  | set {element element' : TypeExpr} (h : Retells t t' ns element element') :
    Retells t t' ns (.set element) (.set element')
  | record {r r' : Record TypeExpr} (h : RetellsRecord t t' ns r r') :
    Retells t t' ns (.record r) (.record r')

inductive RetellsRecord (t t' : SymbolTable) (ns : String) :
    Record TypeExpr → Record TypeExpr → Prop
  | mk {attributes attributes' : List (Attribute TypeExpr)} {comments comments' : Comments}
      (h : RetellsAll t t' ns attributes attributes') :
    RetellsRecord t t' ns ⟨attributes, comments⟩ ⟨attributes', comments'⟩

inductive RetellsAll (t t' : SymbolTable) (ns : String) :
    List (Attribute TypeExpr) → List (Attribute TypeExpr) → Prop
  | nil : RetellsAll t t' ns [] []
  | cons {name : String} {type type' : TypeExpr} {required : Bool}
      {annotations : List Annotation} {comments comments' : Comments}
      {rest rest' : List (Attribute TypeExpr)} (h : Retells t t' ns type type')
      (hrest : RetellsAll t t' ns rest rest') :
    RetellsAll t t' ns (⟨name, type, required, annotations, comments⟩ :: rest)
      (⟨name, type', required, annotations, comments'⟩ :: rest')

end

/-- Every common type is declared again where it was declared, with its body told again. -/
def RetellsBodies (t t' : SymbolTable) : Prop :=
  ∀ name d, t.commonType? name = some d →
    ∃ c, t'.commonType? name = some ⟨d.ns, c⟩ ∧ t.Retells t' d.ns d.decl.type c.type

theorem RetellsAll.map_name : {attributes attributes' : List (Attribute TypeExpr)} →
    t.RetellsAll t' ns attributes attributes' →
      attributes'.map Attribute.name = attributes.map Attribute.name
  | _, _, .nil => rfl
  | _, _, .cons _ hrest => by rw [List.map_cons, List.map_cons, hrest.map_name]

mutual

/-- A type that is told again stands for what it stood for. -/
theorem Retells.denotes (hbodies : t.RetellsBodies t') {ns : String} :
    {type type' : TypeExpr} → {a : ResolvedType} → t.Denotes ns type a →
      t.Retells t' ns type type' → t'.Denotes ns type' a
  | _, _, _, .builtin hp, .path h => .builtin (h _ hp)
  | _, _, _, .entityType hp, .path h => .entityType (h _ hp)
  | _, _, _, .commonType hp hd ha, .path h => by
    obtain ⟨c, hc, hbody⟩ := hbodies _ _ hd
    exact .commonType (h _ hp) hc (Retells.denotes hbodies ha hbody)
  | _, _, _, .entity hp, .entity h => .entity (h _ hp)
  | _, _, _, .entity hp, .plain h => h _ hp
  | _, _, _, .set ha, .set h => .set (Retells.denotes hbodies ha h)
  | _, _, _, .record ha, .record h => .record (RetellsRecord.denotes hbodies ha h)

theorem RetellsRecord.denotes (hbodies : t.RetellsBodies t') {ns : String} :
    {r r' : Record TypeExpr} → {fields : Fields} → t.DenotesRecord ns r fields →
      t.RetellsRecord t' ns r r' → t'.DenotesRecord ns r' fields
  | _, _, _, .mk hall hnodup, .mk h =>
    .mk (RetellsAll.denotes hbodies hall h) (h.map_name ▸ hnodup)

theorem RetellsAll.denotes (hbodies : t.RetellsBodies t') {ns : String} :
    {attributes attributes' : List (Attribute TypeExpr)} → {fields : Fields} →
      t.DenotesAll ns attributes fields → t.RetellsAll t' ns attributes attributes' →
        t'.DenotesAll ns attributes' fields
  | _, _, _, .nil _, .nil => .nil ns
  | _, _, _, .cons ha hrest, .cons h hrest' =>
    .cons (Retells.denotes hbodies ha h) (RetellsAll.denotes hbodies hrest hrest')

end

/-! ## Declarations -/

/-- The references name by `t'` what they named by `t`. -/
def RetellsRefs (t t' : SymbolTable) (ns : String) (refs refs' : List Path) : Prop :=
  ∀ names, t.RefsOf ns refs names → t'.RefsOf ns refs' names

theorem SameNames.retellsRefs (h : t.SameNames t') (refs : List Path) :
    t.RetellsRefs t' ns refs refs :=
  fun _ hnames => hnames.imp fun p _ hp => (h.lookupEntityType_eq ns p).trans hp

structure RetellsEntity (t t' : SymbolTable) (ns : String) (d d' : EntityDecl) : Prop where
  annotations : annotationDict d'.annotations = annotationDict d.annotations
  parents : t.RetellsRefs t' ns d.parents d'.parents
  shape : Option.Rel (t.RetellsRecord t' ns) d.shape d'.shape
  tags : Option.Rel (t.Retells t' ns) d.tags d'.tags

structure RetellsAppliesTo (t t' : SymbolTable) (ns : String) (a a' : AppliesTo) : Prop where
  principals : t.RetellsRefs t' ns (a.principals.getD []) (a'.principals.getD [])
  resources : t.RetellsRefs t' ns (a.resources.getD []) (a'.resources.getD [])
  context : Option.Rel (t.Retells t' ns) a.context a'.context

structure RetellsAction (t t' : SymbolTable) (ns : String) (d d' : ActionDecl) : Prop where
  annotations : annotationDict d'.annotations = annotationDict d.annotations
  parents : d'.parents.map (parentUid ns) = d.parents.map (parentUid ns)
  appliesTo : Option.Rel (t.RetellsAppliesTo t' ns) d.appliesTo d'.appliesTo

/-- By the table `t'` the second declaration says in the namespace `ns` what the first says by `t`,
under whatever names. -/
inductive RetellsDecl (t t' : SymbolTable) (ns : String) : Decl → Decl → Prop
  | entity {d d' : EntityDecl} (h : RetellsEntity t t' ns d d') :
    RetellsDecl t t' ns (.entity d) (.entity d')
  | enum {d d' : EnumDecl}
      (hannotations : annotationDict d'.annotations = annotationDict d.annotations)
      (hvalues : d'.values = d.values) : RetellsDecl t t' ns (.enum d) (.enum d')
  | action {d d' : ActionDecl} (h : RetellsAction t t' ns d d') :
    RetellsDecl t t' ns (.action d) (.action d')
  | commonType {d d' : CommonTypeDecl} (hname : d'.name = d.name)
      (h : Retells t t' ns d.type d'.type) : RetellsDecl t t' ns (.commonType d) (.commonType d')

theorem rel_map {α β : Type} {R : α → β → Prop} {f : α → β} : {a : Option α} →
    (∀ x ∈ a, R x (f x)) → Option.Rel R a (a.map f)
  | none, _ => .none
  | some x, h => .some (h x rfl)

theorem rel_refl {α : Type} {R : α → α → Prop} {a : Option α} (h : ∀ x ∈ a, R x x) :
    Option.Rel R a a := by
  have hmap : Option.Rel R a (a.map id) := rel_map h
  rwa [Option.map_id_fun, id] at hmap

theorem rel_of_rel {α β γ : Type} {R : α → β → Prop} {S : α → γ → Prop} {S' : β → γ → Prop}
    {a : Option α} {b : Option β} {c : Option γ} (hc : Option.Rel S a c) (hab : Option.Rel R a b)
    (h : ∀ a b c, S a c → R a b → S' b c) : Option.Rel S' b c := by
  cases hab with
  | none =>
    cases hc
    exact .none
  | some hab =>
    cases hc with
    | some hc => exact .some (h _ _ _ hc hab)

section

variable (hbodies : t.RetellsBodies t')

include hbodies

theorem RetellsEntity.entityOf {d d' : EntityDecl} {e : ResolvedEntity}
    (h : t.RetellsEntity t' ns d d') (he : t.EntityOf ⟨ns, d⟩ n e) : t'.EntityOf ⟨ns, d'⟩ n e where
  name := he.name
  annotations := he.annotations.trans h.annotations.symm
  parents := h.parents _ he.parents
  shape := rel_of_rel he.shape h.shape fun _ _ _ => RetellsRecord.denotes hbodies
  tags := rel_of_rel he.tags h.tags fun _ _ _ => Retells.denotes hbodies

/-- What the second declaration stands for the first stood for, if that stood for anything. -/
theorem RetellsEntity.entityOf_of_told {d d' : EntityDecl} {e : ResolvedEntity}
    (h : t.RetellsEntity t' ns d d') (hd : ∃ e, t.EntityOf ⟨ns, d⟩ n e)
    (he : t'.EntityOf ⟨ns, d'⟩ n e) : t.EntityOf ⟨ns, d⟩ n e := by
  obtain ⟨e', he'⟩ := hd
  cases (h.entityOf hbodies he').unique he
  exact he'

theorem contextOf_of_retells {context context' : Option TypeExpr} {fields : Fields}
    (h : Option.Rel (t.Retells t' ns) context context') (hf : t.ContextOf ns context fields) :
    t'.ContextOf ns context' fields := by
  cases h with
  | none =>
    cases hf
    exact .none
  | some h =>
    cases hf with
    | some hf => exact .some (h.denotes hbodies hf)

theorem RetellsAppliesTo.appliesToOf {a a' : AppliesTo} {r : ResolvedAppliesTo}
    (h : t.RetellsAppliesTo t' ns a a') (hr : t.AppliesToOf ns a r) : t'.AppliesToOf ns a' r where
  principals := h.principals _ hr.principals
  resources := h.resources _ hr.resources
  context := contextOf_of_retells hbodies h.context hr.context

theorem RetellsAction.actionOf {d d' : ActionDecl} {a : ResolvedAction}
    (h : t.RetellsAction t' ns d d') (ha : t.ActionOf ⟨ns, d⟩ n a) : t'.ActionOf ⟨ns, d'⟩ n a where
  uid := ha.uid
  annotations := ha.annotations.trans h.annotations.symm
  parents := ha.parents.trans h.parents.symm
  appliesTo := rel_of_rel ha.appliesTo h.appliesTo fun _ _ _ hr h => h.appliesToOf hbodies hr

theorem RetellsAction.actionOf_of_told {d d' : ActionDecl} {a : ResolvedAction}
    (h : t.RetellsAction t' ns d d') (hd : ∃ a, t.ActionOf ⟨ns, d⟩ n a)
    (ha : t'.ActionOf ⟨ns, d'⟩ n a) : t.ActionOf ⟨ns, d⟩ n a := by
  obtain ⟨a', ha'⟩ := hd
  cases (h.actionOf hbodies ha').unique ha
  exact ha'

end

end SymbolTable

/-! ## Schemas -/

open SymbolTable

namespace Schema

theorem sameNames_of_perm {s s' : Schema} (hentity : s.entityTypeNames.Perm s'.entityTypeNames)
    (hcommon : s.commonTypeNames.Perm s'.commonTypeNames) : s.table.SameNames s'.table := by
  have htable (s : Schema) : s.table.entityTypes.Perm s.entityTypeNames :=
    s.scopedDecls_perm.flatMap_right _
  have hnames (s : Schema) : (s.table.commonTypes.map Prod.fst).Perm s.commonTypeNames :=
    (s.scopedDecls_perm.flatMap_right _).map _
  constructor
  · intro name
    rw [Bool.eq_iff_iff, hasEntityType_iff, hasEntityType_iff, (htable s').mem_iff,
      (htable s).mem_iff, hentity.mem_iff]
  · intro name
    rw [Bool.eq_iff_iff, hasCommonType_iff, hasCommonType_iff, (hnames s').mem_iff,
      (hnames s).mem_iff, hcommon.mem_iff]

/-- All that a schema declares is told again by the other under the same names. -/
def ToldIn (s s' : Schema) : Prop :=
  ∀ ns d n, ⟨ns, d⟩ ∈ s.declarations → n ∈ d.names →
    ∃ d', ⟨ns, d'⟩ ∈ s'.declarations ∧ n ∈ d'.names ∧ s.table.RetellsDecl s'.table ns d d'

namespace ToldIn

variable {s s' : Schema} {r : ResolvedSchema} (h : s.ToldIn s') (hs' : s'.table.Distinct)

include h

theorem mem_actionUids {a : EntityUid} (ha : a ∈ s.actionUids) : a ∈ s'.actionUids := by
  obtain ⟨⟨ns, d⟩, hd, ha⟩ := List.mem_flatMap.1 ha
  cases d with
  | action d =>
    obtain ⟨n, hn, rfl⟩ := List.mem_map.1 ha
    obtain ⟨d', hd', hn, hdecl⟩ := h ns _ n hd hn
    cases hdecl
    exact List.mem_flatMap.2 ⟨_, hd', List.mem_map_of_mem hn⟩
  | _ => cases ha

theorem exists_enum (hr : s.Means r) {name : String} {e : ResolvedEnum}
    (he : r.enums.find? name = some e) : ∃ ns d n, ⟨ns, .enum d⟩ ∈ s'.declarations ∧
      n ∈ d.names ∧ name = qualify ns n ∧
        e = ⟨qualify ns n, annotationDict d.annotations, d.values⟩ := by
  obtain ⟨ns, d, n, hd, hn, hname, rfl⟩ := (hr.entries.enums name e).1 he
  obtain ⟨d', hd', hn, hdecl⟩ := h ns _ n hd hn
  cases hdecl with
  | enum hannotations hvalues => exact ⟨ns, _, n, hd', hn, hname, by rw [hannotations, hvalues]⟩

include hs'

theorem retellsBodies (hs : s.table.Distinct) : s.table.RetellsBodies s'.table := by
  intro name d hd
  obtain ⟨hqualify, hmem⟩ :=
    mem_table_commonTypes.1 ((commonType?_eq_some_iff hs.commonTypes).1 hd)
  obtain ⟨d', hmem', -, hd'⟩ := h d.ns _ d.decl.name hmem (List.mem_singleton.2 rfl)
  cases hd' with
  | @commonType _ c hname hbody =>
    have hname : name = qualify d.ns c.name := hname ▸ hqualify
    have hc : (name, ⟨d.ns, c⟩) ∈ s'.table.commonTypes := mem_table_commonTypes.2 ⟨hname, hmem'⟩
    exact ⟨c, (commonType?_eq_some_iff hs'.commonTypes).2 hc, hbody⟩

theorem exists_entity (hr : s.Means r) {name : String} {e : ResolvedEntity}
    (he : r.entities.find? name = some e) : ∃ ns d n, ⟨ns, .entity d⟩ ∈ s'.declarations ∧
      n ∈ d.names ∧ name = qualify ns n ∧ s'.table.EntityOf ⟨ns, d⟩ n e := by
  obtain ⟨ns, d, n, hd, hn, hname, he⟩ := (hr.entries.entities name e).1 he
  obtain ⟨d', hd', hn, hdecl⟩ := h ns _ n hd hn
  cases hdecl with
  | entity hdecl =>
    exact ⟨ns, _, n, hd', hn, hname, hdecl.entityOf (h.retellsBodies hs' hr.distinct) he⟩

theorem exists_action (hr : s.Means r) {uid : EntityUid} {a : ResolvedAction}
    (ha : r.actions.find? uid = some a) : ∃ ns d n, ⟨ns, .action d⟩ ∈ s'.declarations ∧
      n ∈ d.names ∧ uid = ⟨actionType ns, n⟩ ∧ s'.table.ActionOf ⟨ns, d⟩ n a := by
  obtain ⟨ns, d, n, hd, hn, huid, ha⟩ := (hr.entries.actions uid a).1 ha
  obtain ⟨d', hd', hn, hdecl⟩ := h ns _ n hd hn
  cases hdecl with
  | action hdecl =>
    exact ⟨ns, _, n, hd', hn, huid, hdecl.actionOf (h.retellsBodies hs' hr.distinct) ha⟩

end ToldIn

/-- All that a schema declares is told again by the other under the same names, and the other
declares nothing else. -/
structure Retells (s s' : Schema) : Prop where
  distinct : s'.table.Distinct
  told : s.ToldIn s'
  names : ∀ ns d' n, ⟨ns, d'⟩ ∈ s'.declarations → n ∈ d'.names →
    ∃ d, ⟨ns, d⟩ ∈ s.declarations ∧ n ∈ d.names ∧ s.table.RetellsDecl s'.table ns d d'
  /-- A declaration without a name says something as well. -/
  bodies : ∀ ns d', ⟨ns, d'⟩ ∈ s'.declarations →
    ∃ d, ⟨ns, d⟩ ∈ s.declarations ∧ s.table.RetellsDecl s'.table ns d d'

namespace Retells

variable {s s' : Schema} {r : ResolvedSchema} (h : s.Retells s')

include h

/-- No action gets a parent that it did not have. -/
theorem isMember {a b : EntityUid} (hab : s'.IsMember a b) : s.IsMember a b := by
  obtain ⟨⟨ns, d'⟩, hd', ha, hb⟩ := hab
  cases d' with
  | action d' =>
    obtain ⟨n, hn, rfl⟩ := List.mem_map.1 ha
    obtain ⟨d, hd, hn, hdecl⟩ := h.names ns _ n hd' hn
    cases hdecl with
    | action hdecl =>
      refine ⟨_, hd, List.mem_map_of_mem hn, ?_⟩
      show b ∈ List.map (parentUid ns) _
      rw [← hdecl.parents]
      exact hb
  | _ => cases ha

theorem entries (hr : s.Means r) : r.Says s' := by
  have hbodies := h.told.retellsBodies h.distinct hr.distinct
  refine ⟨fun name e => ⟨h.told.exists_entity h.distinct hr, ?_⟩,
    fun name e => ⟨h.told.exists_enum hr, ?_⟩,
    fun uid a => ⟨h.told.exists_action h.distinct hr, ?_⟩⟩
  · rintro ⟨ns, d', n, hd', hn, hname, he⟩
    obtain ⟨d, hd, hn, hdecl⟩ := h.names ns _ n hd' hn
    cases hdecl with
    | entity hdecl =>
      have he := hdecl.entityOf_of_told hbodies (hr.entities ns _ hd n) he
      exact (hr.entries.entities name e).2 ⟨ns, _, n, hd, hn, hname, he⟩
  · rintro ⟨ns, d', n, hd', hn, hname, rfl⟩
    obtain ⟨d, hd, hn, hdecl⟩ := h.names ns _ n hd' hn
    cases hdecl with
    | enum hannotations hvalues =>
      rw [hannotations, hvalues]
      exact (hr.entries.enums name _).2 ⟨ns, _, n, hd, hn, hname, rfl⟩
  · rintro ⟨ns, d', n, hd', hn, huid, ha⟩
    obtain ⟨d, hd, hn, hdecl⟩ := h.names ns _ n hd' hn
    cases hdecl with
    | action hdecl =>
      have ha := hdecl.actionOf_of_told hbodies (hr.actions ns _ hd n hn) ha
      exact (hr.entries.actions uid a).2 ⟨ns, _, n, hd, hn, huid, ha⟩

/-- A schema that is told again means what it meant. -/
theorem means (hr : s.Means r) : s'.Means r := by
  have hbodies := h.told.retellsBodies h.distinct hr.distinct
  refine ⟨h.distinct, fun ns d' hd' => ?_, fun ns d' hd' n => ?_, fun ns d' hd' n hn => ?_,
    fun a b hab => ?_, fun a hcycle => ?_, h.entries hr⟩
  · obtain ⟨d, hd, hdecl⟩ := h.bodies ns _ hd'
    cases hdecl with
    | commonType _ hbody =>
      obtain ⟨type, htype⟩ := hr.commonTypes ns _ hd
      exact ⟨type, hbody.denotes hbodies htype⟩
  · obtain ⟨d, hd, hdecl⟩ := h.bodies ns _ hd'
    cases hdecl with
    | entity hdecl =>
      obtain ⟨e, he⟩ := hr.entities ns _ hd n
      exact ⟨e, hdecl.entityOf hbodies he⟩
  · obtain ⟨d, hd, hn, hdecl⟩ := h.names ns _ n hd' hn
    cases hdecl with
    | action hdecl =>
      obtain ⟨a, ha⟩ := hr.actions ns _ hd n hn
      exact ⟨a, hdecl.actionOf hbodies ha⟩
  · exact h.told.mem_actionUids (hr.closed a b (h.isMember hab))
  · have hmono : s'.IsMember ≤ s.IsMember := fun _ _ => h.isMember
    exact hr.acyclic a (Relation.TransGen.mono hmono _ _ hcycle)

theorem resolve_eq (hr : s.resolve = .ok r) : s'.resolve = .ok r := by
  rw [resolve_eq_ok_iff] at hr ⊢
  exact h.means hr

end Retells

end Schema

end CedarSchema
