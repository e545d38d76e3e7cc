import CedarSchema.Proofs.Resolve.Cycles
import CedarSchema.Proofs.Resolve.Recorded

/-
  Resolving a schema with a record of the chains. Each search that resolving a schema starts begins
  with an empty chain, and here with as much fuel as all declarations of the kind and what is to be
  resolved call for. The fuel never runs out, the result is that of resolving without fuel, and in
  every run, failed ones included, no chain holds a name twice or is longer than there are names
  declared (`resolve_keeps_simple_chains`).
-/

namespace CedarSchema

namespace Recorded

variable {P : Trail → Prop} {t : SymbolTable}

/-! ## Common types -/

def expandAll (t : SymbolTable) (names : List String) (expanded : Expanded) : Recorded Expanded :=
  names.foldlM (fun expanded name => Prod.snd <$> expand t (typeFuel t [] + 1) [] name expanded)
    expanded

theorem follows_expandAll (hP : AllowsTypes P t) (names : List String) (expanded : Expanded) :
    Follows P (expandAll t names expanded) (t.expandAll names expanded) := by
  unfold expandAll SymbolTable.expandAll
  induction names generalizing expanded with
  | nil => exact .pure _
  | cons name names ih =>
    rw [List.foldlM_cons, List.foldlM_cons]
    have hname := follows_expand hP (simpleChain_nil _) name expanded le_rfl
    exact hname.map.bind fun expanded _ => ih expanded

/-! ## Entity types -/

/-- The type that `type` stands for, from an empty chain. -/
def resolveTopType (t : SymbolTable) (ns : String) (type : TypeExpr) (expanded : Expanded) :
    Recorded (ResolvedType × Expanded) :=
  resolveType t (typeFuel t [] + typeCalls type) [] ns type expanded

theorem follows_resolveTopType (hP : AllowsTypes P t) (ns : String) (type : TypeExpr)
    (expanded : Expanded) :
    Follows P (resolveTopType t ns type expanded) (t.resolveType [] ns type expanded) :=
  follows_resolveType hP (simpleChain_nil _) ns type expanded le_rfl

def resolveShape (t : SymbolTable) (ns : String) (shape : Option (Record TypeExpr))
    (expanded : Expanded) : Recorded (Option Fields × Expanded) :=
  match shape with
  | none => pure (none, expanded)
  | some r => do
    let (fields, expanded) ← resolveFields t (typeFuel t [] + attributesCalls r.attributes) [] ns
      .empty r.attributes expanded
    return (some fields.entries, expanded)

theorem follows_resolveShape (hP : AllowsTypes P t) (ns : String)
    (shape : Option (Record TypeExpr)) (expanded : Expanded) :
    Follows P (resolveShape t ns shape expanded) (t.resolveShape ns shape expanded) := by
  cases shape with
  | none => exact .pure _
  | some r =>
    have hfields := follows_resolveFields hP (simpleChain_nil _) ns .empty r.attributes expanded
      le_rfl
    exact hfields.bind fun x _ => .pure _

def resolveTags (t : SymbolTable) (ns : String) (tags : Option TypeExpr) (expanded : Expanded) :
    Recorded (Option ResolvedType × Expanded) :=
  match tags with
  | none => pure (none, expanded)
  | some type => do
    let (type, expanded) ← resolveTopType t ns type expanded
    return (some type, expanded)

theorem follows_resolveTags (hP : AllowsTypes P t) (ns : String) (tags : Option TypeExpr)
    (expanded : Expanded) :
    Follows P (resolveTags t ns tags expanded) (t.resolveTags ns tags expanded) := by
  cases tags with
  | none => exact .pure _
  | some type => exact (follows_resolveTopType hP ns type expanded).bind fun x _ => .pure _

def resolveEntity (t : SymbolTable) (d : Scoped EntityDecl) (expanded : Expanded) :
    Recorded (List ResolvedEntity × Expanded) := do
  let parents ← ofExcept (t.resolveRefs d.ns d.decl.parents)
  let (shape, expanded) ← resolveShape t d.ns d.decl.shape expanded
  let (tags, expanded) ← resolveTags t d.ns d.decl.tags expanded
  let annotations := annotationDict d.decl.annotations
  return (d.decl.names.map fun n => ⟨qualify d.ns n, annotations, parents, shape, tags⟩, expanded)

theorem follows_resolveEntity (hP : AllowsTypes P t) (d : Scoped EntityDecl)
    (expanded : Expanded) :
    Follows P (resolveEntity t d expanded) (t.resolveEntity d expanded) := by
  refine (Follows.ofExcept _).bind fun parents _ => ?_
  refine (follows_resolveShape hP d.ns d.decl.shape expanded).bind fun ⟨shape, expanded⟩ _ => ?_
  exact (follows_resolveTags hP d.ns d.decl.tags expanded).bind fun x _ => .pure _

def resolveEntities (t : SymbolTable) (decls : List (Scoped EntityDecl)) (expanded : Expanded) :
    Recorded (List ResolvedEntity × Expanded) :=
  match decls with
  | [] => pure ([], expanded)
  | d :: rest => do
    let (entities, expanded) ← resolveEntity t d expanded
    let (others, expanded) ← resolveEntities t rest expanded
    return (entities ++ others, expanded)

theorem follows_resolveEntities (hP : AllowsTypes P t) (decls : List (Scoped EntityDecl))
    (expanded : Expanded) :
    Follows P (resolveEntities t decls expanded) (t.resolveEntities decls expanded) := by
  induction decls generalizing expanded with
  | nil => exact .pure _
  | cons d rest ih =>
    refine (follows_resolveEntity hP d expanded).bind fun ⟨entities, expanded⟩ _ => ?_
    exact (ih expanded).bind fun x _ => .pure _

/-! ## Actions -/

def resolveContext (t : SymbolTable) (ns : String) (uid : EntityUid) (context : Option TypeExpr)
    (expanded : Expanded) : Recorded (Fields × Expanded) :=
  match context with
  | none => pure ([], expanded)
  | some type => do
    match ← resolveTopType t ns type expanded with
    | (.record fields, expanded) => return (fields, expanded)
    | (other, _) => .ofExcept (.error (.invalidContext uid other))

theorem follows_resolveContext (hP : AllowsTypes P t) (ns : String) (uid : EntityUid)
    (context : Option TypeExpr) (expanded : Expanded) :
    Follows P (resolveContext t ns uid context expanded)
      (t.resolveContext ns uid context expanded) := by
  cases context with
  | none => exact .pure _
  | some type =>
    refine (follows_resolveTopType hP ns type expanded).bind fun ⟨type, expanded⟩ _ => ?_
    cases type with
    | record fields => exact .pure _
    | _ => exact .ofExcept _

def resolveAppliesTo (t : SymbolTable) (ns : String) (uid : EntityUid) (a : Option AppliesTo)
    (expanded : Expanded) : Recorded (Option ResolvedAppliesTo × Expanded) :=
  match a with
  | none => pure (none, expanded)
  | some a => do
    let principals ← ofExcept (t.resolveRefs ns (a.principals.getD []))
    let resources ← ofExcept (t.resolveRefs ns (a.resources.getD []))
    let (context, expanded) ← resolveContext t ns uid a.context expanded
    return (some ⟨principals, resources, context⟩, expanded)

theorem follows_resolveAppliesTo (hP : AllowsTypes P t) (ns : String) (uid : EntityUid)
    (a : Option AppliesTo) (expanded : Expanded) :
    Follows P (resolveAppliesTo t ns uid a expanded) (t.resolveAppliesTo ns uid a expanded) := by
  cases a with
  | none => exact .pure _
  | some a =>
    refine (Follows.ofExcept _).bind fun principals _ => ?_
    refine (Follows.ofExcept _).bind fun resources _ => ?_
    exact (follows_resolveContext hP ns uid a.context expanded).bind fun x _ => .pure _

def resolveAction (t : SymbolTable) (d : Scoped ActionDecl) (name : String)
    (expanded : Expanded) : Recorded (ResolvedAction × Expanded) := do
  let uid := ⟨actionType d.ns, name⟩
  let (appliesTo, expanded) ← resolveAppliesTo t d.ns uid d.decl.appliesTo expanded
  let parents := d.decl.parents.map (SymbolTable.parentUid d.ns)
  return (⟨uid, annotationDict d.decl.annotations, parents, appliesTo⟩, expanded)

theorem follows_resolveAction (hP : AllowsTypes P t) (d : Scoped ActionDecl) (name : String)
    (expanded : Expanded) :
    Follows P (resolveAction t d name expanded) (t.resolveAction d name expanded) :=
  (follows_resolveAppliesTo hP d.ns _ d.decl.appliesTo expanded).bind fun _ _ => .pure _

def resolveActions (t : SymbolTable) (decls : List (Scoped ActionDecl × String))
    (expanded : Expanded) : Recorded (List ResolvedAction × Expanded) :=
  match decls with
  | [] => pure ([], expanded)
  | (d, name) :: rest => do
    let (action, expanded) ← resolveAction t d name expanded
    let (others, expanded) ← resolveActions t rest expanded
    return (action :: others, expanded)

theorem follows_resolveActions (hP : AllowsTypes P t)
    (decls : List (Scoped ActionDecl × String)) (expanded : Expanded) :
    Follows P (resolveActions t decls expanded) (t.resolveActions decls expanded) := by
  induction decls generalizing expanded with
  | nil => exact .pure _
  | cons x rest ih =>
    obtain ⟨d, name⟩ := x
    refine (follows_resolveAction hP d name expanded).bind fun ⟨action, expanded⟩ _ => ?_
    exact (ih expanded).bind fun x _ => .pure _

def check (actions : ActionDict) : Recorded Unit :=
  match actions.danglingParent with
  | some (action, parent) => .ofExcept (.error (.undefinedAction action parent))
  | none => do
    let _ ← visitAll actions (visitFuel actions [] + actions.keys.length + 2) [] actions.keys []
    return ()

theorem follows_check {actions : ActionDict} (hP : AllowsActions P actions) :
    Follows P (check actions) actions.check := by
  unfold check ActionDict.check
  cases hd : actions.danglingParent with
  | some x => exact .ofExcept _
  | none =>
    have hclosed := ActionDict.danglingParent_eq_none_iff.1 hd
    have hall := follows_visitAll hP hclosed (simpleChain_nil _) (fun _ => id) [] le_rfl
    exact hall.bind fun _ _ => .pure _

end Recorded

/-! ## Schemas -/

namespace Schema

open Recorded

def resolveRecorded (s : Schema) : Recorded ResolvedSchema := do
  let t ← ofExcept (SymbolTable.ofSchema s)
  let expanded ← expandAll t (t.commonTypes.map Prod.fst) .empty
  let (entities, expanded) ← resolveEntities t t.entities expanded
  let (actions, _) ← resolveActions t t.namedActions expanded
  let actions := Dict.ofList (actions.map fun a => (a.uid, a))
  Recorded.check actions
  return {
    entities := .ofList (entities.map fun e => (e.name, e))
    enums := .ofList ((t.enums.flatMap SymbolTable.resolveEnum).map fun e => (e.name, e))
    actions }

/-- A chain on which none comes twice and which is not longer than the schema declares common types
or actions. -/
def Bounds (s : Schema) : Trail → Prop
  | .commonTypes chain => chain.Nodup ∧ chain.length ≤ s.commonTypeNames.length
  | .actions chain => chain.Nodup ∧ chain.length ≤ s.actionUids.length

variable {s : Schema}

theorem allowsTypes_bounds (s : Schema) : AllowsTypes s.Bounds s.table := by
  intro chain hchain
  refine ⟨hchain.nodup, ?_⟩
  rw [← (SymbolTable.commonTypes_perm s).length_eq]
  exact hchain.length_le

theorem ActionsOf.allowsActions_bounds {actions : List ResolvedAction} (hs : s.table.Distinct)
    (h : s.ActionsOf actions) : AllowsActions s.Bounds (actionDict actions) := by
  intro chain hchain
  refine ⟨hchain.nodup, ?_⟩
  rw [← (h.keys_perm hs).length_eq]
  exact hchain.length_le

theorem follows_resolveRecorded (s : Schema) : Follows s.Bounds s.resolveRecorded s.resolve := by
  refine (Follows.ofExcept _).bind fun t ht => ?_
  obtain ⟨hdistinct, rfl⟩ := (SymbolTable.needs_ofSchema s).of_ok ht
  have hP := allowsTypes_bounds s
  refine (follows_expandAll hP _ _).bind fun expanded hexpanded => ?_
  have hready := ((SymbolTable.needs_expandCommonTypes s.table).of_ok hexpanded).2
  refine (follows_resolveEntities hP _ expanded).bind fun ⟨entities, expanded⟩ hentities => ?_
  have hready := ((SymbolTable.needs_resolveEntities _ hready).of_ok hentities).2.2
  refine (follows_resolveActions hP _ expanded).bind fun ⟨actions, expanded⟩ hactions => ?_
  have hactions : s.ActionsOf actions :=
    ((SymbolTable.needs_resolveActions _ hready).of_ok hactions).2.1
  refine (follows_check (hactions.allowsActions_bounds hdistinct)).bind fun _ _ => ?_
  exact .pure _

/-- On fuel a given schema can be resolved by computation, so that its success is read off. -/
theorem exists_resolve_of_recorded (h : s.resolveRecorded.outcome.any Except.isOk = true) :
    ∃ r, s.resolve = .ok r := by
  rw [(follows_resolveRecorded s).outcome, Option.any_some] at h
  exact exists_ok_of_isOk h

/-- Resolving a schema on the fuel that its declarations call for ends as resolving it without fuel
does, and every chain on the way is short and has no name twice. -/
theorem resolve_keeps_simple_chains (s : Schema) :
    s.resolveRecorded.outcome = some s.resolve ∧
      ∀ trail ∈ s.resolveRecorded.trails, s.Bounds trail :=
  have h := follows_resolveRecorded s
  ⟨h.outcome, h.trails⟩

/-- Two common types that lead to each other: the run enters both and then fails. -/
example :
    let type (name other : String) : Item :=
      .decl (.commonType { name, type := .set (.path ⟨[other]⟩) })
    (Schema.mk [type "A" "B", type "B" "A"] []).resolveRecorded =
      ⟨[.commonTypes ["A"], .commonTypes ["A", "B"]],
        some (.error (.commonTypeCycle ["A", "B", "A"]))⟩ := by
  cbv

end Schema

end CedarSchema
