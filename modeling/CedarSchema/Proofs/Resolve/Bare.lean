import Mathlib
import CedarSchema.Document.Writer
import CedarSchema.Proofs.Grammar.Rules
import CedarSchema.Proofs.Resolve.Expansion
import CedarSchema.Resolve.Schema

/-
  Comments mean nothing. A schema without its comments declares the same names in the same order,
  so it fills the same table but for comments (`SymbolTable.bare`). Names find the same in both
  tables, types stand for the same, and so do declarations: resolving gives the same result or the
  same error, and the documents are the same. Each function that resolves is shown to see no
  comments, from what the functions it calls do.
-/

namespace CedarSchema

/-! ## Declarations by namespace -/

theorem insertEntry_map {κ α β : Type} [Ord κ] (f : α → β) (k : κ) (v : α)
    (entries : List (κ × α)) :
    insertEntry k (f v) (entries.map (Prod.map id f)) =
      (insertEntry k v entries).map (Prod.map id f) := by
  induction entries with
  | nil => rfl
  | cons e rest ih =>
    unfold insertEntry
    rw [List.map_cons]
    dsimp only [Prod.map, id]
    split
    · rfl
    · rfl
    · exact congrArg (_ :: ·) ih

theorem findEntry_map {κ α β : Type} [Ord κ] (f : α → β) (k : κ) (entries : List (κ × α)) :
    findEntry k (entries.map (Prod.map id f)) = (findEntry k entries).map f := by
  induction entries with
  | nil => rfl
  | cons e rest ih =>
    unfold findEntry
    rw [List.map_cons]
    dsimp only [Prod.map, id]
    split
    · rfl
    · exact ih

theorem Item.namespaceName_bare (i : Item) : i.bare.namespaceName = i.namespaceName := by
  cases i <;> rfl

theorem Item.decls_bare (i : Item) : i.bare.decls = i.decls.map Decl.bare := by
  cases i <;> rfl

namespace Schema

theorem entries_namespaces_bare (s : Schema) :
    s.bare.namespaces.entries = s.namespaces.entries.map (Prod.map id (List.map Decl.bare)) := by
  have hfold (items : List Item) (d e : Dict String (List Decl))
      (h : e.entries = d.entries.map (Prod.map id (List.map Decl.bare))) :
      ((items.map Item.bare).foldl (fun d i => d.append i.namespaceName i.decls) e).entries =
        (items.foldl (fun d i => d.append i.namespaceName i.decls) d).entries.map
          (Prod.map id (List.map Decl.bare)) := by
    induction items generalizing d e with
    | nil => exact h
    | cons i items ih =>
      refine ih _ _ ?_
      show insertEntry _ ((findEntry _ e.entries).getD [] ++ _) e.entries =
        (insertEntry _ ((findEntry _ d.entries).getD [] ++ _) d.entries).map _
      rw [h, i.namespaceName_bare, i.decls_bare, findEntry_map, ← insertEntry_map, List.map_append]
      cases findEntry i.namespaceName d.entries <;> rfl
  exact hfold s.items .empty .empty rfl

end Schema

def Scoped.map {α β : Type} (f : α → β) (d : Scoped α) : Scoped β := ⟨d.ns, f d.decl⟩

theorem Schema.scopedDecls_bare (s : Schema) :
    s.bare.scopedDecls = s.scopedDecls.map (Scoped.map Decl.bare) := by
  unfold scopedDecls
  rw [s.entries_namespaces_bare, List.flatMap_map, List.map_flatMap]
  refine List.flatMap_congr fun e _ => ?_
  simp only [Prod.map, id, List.map_map]
  rfl

/-! ## Tables -/

def EntityDecl.bare (d : EntityDecl) : EntityDecl :=
  { d with shape := d.shape.map Record.bare, tags := d.tags.map TypeExpr.bare, comments := {} }

def EnumDecl.bare (d : EnumDecl) : EnumDecl := { d with comments := {} }

def ActionDecl.bare (d : ActionDecl) : ActionDecl :=
  { d with appliesTo := d.appliesTo.map AppliesTo.bare, comments := {} }

def CommonTypeDecl.bare (d : CommonTypeDecl) : CommonTypeDecl :=
  { d with type := d.type.bare, comments := {} }

namespace SymbolTable

/-- The table without comments. -/
def bare (t : SymbolTable) : SymbolTable where
  commonTypes := t.commonTypes.map (Prod.map id (Scoped.map CommonTypeDecl.bare))
  entityTypes := t.entityTypes
  actionUids := t.actionUids
  entities := t.entities.map (Scoped.map EntityDecl.bare)
  enums := t.enums.map (Scoped.map EnumDecl.bare)
  actions := t.actions.map (Scoped.map ActionDecl.bare)

variable (t : SymbolTable)

theorem commonType?_bare (name : String) :
    t.bare.commonType? name = (t.commonType? name).map (Scoped.map CommonTypeDecl.bare) := by
  show (t.commonTypes.map _).lookup name = (t.commonTypes.lookup name).map _
  induction t.commonTypes with
  | nil => rfl
  | cons e rest ih =>
    rw [List.map_cons, List.lookup_cons, List.lookup_cons, ih]
    dsimp only [Prod.map, id]
    split <;> rfl

theorem hasCommonType_bare (name : String) : t.bare.hasCommonType name = t.hasCommonType name := by
  unfold hasCommonType
  rw [commonType?_bare, Option.isSome_map]

/-- If a step sees no comments, a fold of it sees none. -/
theorem foldlM_bare {α : Type} {f : SymbolTable → α → Except ResolveError SymbolTable}
    {g : α → α} (hf : ∀ t a, f t.bare (g a) = bare <$> f t a) (l : List α) :
    (l.map g).foldlM f t.bare = bare <$> l.foldlM f t := by
  induction l generalizing t with
  | nil => rfl
  | cons a l ih =>
    rw [List.map_cons, List.foldlM_cons, List.foldlM_cons, hf]
    cases f t a with
    | error e => rfl
    | ok t => exact ih t

theorem declareEntityType_bare (name : String) :
    t.bare.declareEntityType name = bare <$> t.declareEntityType name := by
  unfold declareEntityType
  show (if t.hasEntityType name = true then _ else _) = _
  split <;> rfl

theorem declareAction_bare (uid : EntityUid) :
    t.bare.declareAction uid = bare <$> t.declareAction uid := by
  unfold declareAction
  show (if t.actionUids.contains uid = true then _ else _) = _
  split <;> rfl

theorem declareCommonType_bare (name : String) (d : Scoped CommonTypeDecl) :
    t.bare.declareCommonType name (d.map CommonTypeDecl.bare) =
      bare <$> t.declareCommonType name d := by
  unfold declareCommonType
  rw [hasCommonType_bare]
  split
  · rfl
  · simp [bare]

/-- What is declared name by name, and then kept with its declaration, is declared without a look
at the comments. -/
theorem declareNames_bare {f : SymbolTable → String → Except ResolveError SymbolTable}
    {keep keep' : SymbolTable → SymbolTable} (hf : ∀ t n, f t.bare n = bare <$> f t n)
    (hkeep : ∀ t, keep' t.bare = (keep t).bare) (names : List String) :
    (do let t ← names.foldlM f t.bare; return keep' t) =
      bare <$> (do let t ← names.foldlM f t; return keep t) := by
  have hfold := t.foldlM_bare (g := id) hf names
  rw [List.map_id] at hfold
  rw [hfold]
  cases names.foldlM f t with
  | error e => rfl
  | ok t => exact congrArg Except.ok (hkeep t)

theorem declare_bare (ns : String) (d : Decl) :
    t.bare.declare ns d.bare = bare <$> t.declare ns d := by
  cases d with
  | entity d =>
    refine t.declareNames_bare (fun t n => t.declareEntityType_bare (qualify ns n)) (fun t => ?_)
      d.names
    simp [bare, Scoped.map, EntityDecl.bare]
  | enum d =>
    refine t.declareNames_bare (fun t n => t.declareEntityType_bare (qualify ns n)) (fun t => ?_)
      d.names
    simp [bare, Scoped.map, EnumDecl.bare]
  | action d =>
    refine t.declareNames_bare (fun t n => t.declareAction_bare ⟨actionType ns, n⟩) (fun t => ?_)
      d.names
    simp [bare, Scoped.map, ActionDecl.bare]
  | commonType d =>
    show (if _ then _ else _) = bare <$> (if _ then _ else _)
    split
    · rfl
    · exact t.declareCommonType_bare _ ⟨ns, d⟩

theorem ofSchema_bare (s : Schema) : ofSchema s.bare = bare <$> ofSchema s := by
  unfold ofSchema
  rw [s.scopedDecls_bare]
  exact foldlM_bare {} (fun t d => t.declare_bare d.ns d.decl) s.scopedDecls

/-! ## Types -/

theorem hasEntityType_bare (name : String) : t.bare.hasEntityType name = t.hasEntityType name := rfl

theorem lookupType_bare (ns : String) (p : Path) : t.bare.lookupType ns p = t.lookupType ns p := by
  have hfull (name : String) : t.bare.bindFull name = t.bindFull name := by
    unfold bindFull
    rw [hasCommonType_bare, hasEntityType_bare]
  unfold lookupType bindUnqualified
  simp only [hfull]

theorem lookupEntityType_bare (ns : String) (p : Path) :
    t.bare.lookupEntityType ns p = t.lookupEntityType ns p := rfl

mutual

theorem resolveType_bare (chain : List String) (ns : String) (type : TypeExpr)
    (expanded : Expanded) :
    t.bare.resolveType chain ns type.bare expanded = t.resolveType chain ns type expanded := by
  cases type with
  | path p =>
    rw [TypeExpr.bare, resolveType, resolveType, lookupType_bare]
    split
    · rfl
    · rfl
    · rfl
    · exact expand_bare chain _ expanded
  | entity p => rw [TypeExpr.bare, resolveType, resolveType, lookupEntityType_bare]
  | set element =>
    rw [TypeExpr.bare, resolveType, resolveType, resolveType_bare chain ns element]
  | record r =>
    obtain ⟨attributes, comments⟩ := r
    rw [TypeExpr.bare, Record.bare, resolveType, resolveType,
      resolveFields_bare chain ns .empty attributes]
termination_by (t.unvisited chain, sizeOf type)

theorem resolveFields_bare (chain : List String) (ns : String)
    (fields : Dict String (Field ResolvedType)) (attributes : List (Attribute TypeExpr))
    (expanded : Expanded) :
    t.bare.resolveFields chain ns fields (bareAttributes attributes) expanded =
      t.resolveFields chain ns fields attributes expanded := by
  cases attributes with
  | nil => rw [bareAttributes, resolveFields, resolveFields]
  | cons a rest =>
    obtain ⟨name, type, required, annotations, comments⟩ := a
    rw [bareAttributes, resolveFields, resolveFields, resolveType_bare chain ns type]
    refine bind_congr fun x => ?_
    dsimp only
    split
    · rfl
    · exact resolveFields_bare chain ns _ rest _
termination_by (t.unvisited chain, sizeOf attributes)

theorem expand_bare (chain : List String) (name : String) (expanded : Expanded) :
    t.bare.expand chain name expanded = t.expand chain name expanded := by
  rw [expand_eq, expand_eq]
  split
  · rfl
  · split
    · rfl
    · rename_i hn
      rw [commonType?_bare]
      cases hd : t.commonType? name with
      | none => rfl
      | some d =>
        have := unvisited_append_lt hd (Bool.eq_false_iff.2 hn)
        have htype := resolveType_bare (chain ++ [name]) d.ns d.decl.type expanded
        exact congrArg (_ <$> ·) htype
termination_by (t.unvisited chain, 0)

end

theorem expandAll_bare (names : List String) (expanded : Expanded) :
    t.bare.expandAll names expanded = t.expandAll names expanded := by
  unfold expandAll
  simp only [expand_bare]

theorem expandCommonTypes_bare : t.bare.expandCommonTypes = t.expandCommonTypes := by
  unfold expandCommonTypes
  rw [expandAll_bare, bare, List.map_map]
  rfl

/-! ## Declarations -/

theorem resolveShape_bare (ns : String) (shape : Option (Record TypeExpr)) (expanded : Expanded) :
    t.bare.resolveShape ns (shape.map Record.bare) expanded = t.resolveShape ns shape expanded := by
  cases shape with
  | none => rfl
  | some r =>
    obtain ⟨attributes, comments⟩ := r
    exact congrArg (· >>= _) (t.resolveFields_bare [] ns .empty attributes expanded)

theorem resolveTags_bare (ns : String) (tags : Option TypeExpr) (expanded : Expanded) :
    t.bare.resolveTags ns (tags.map TypeExpr.bare) expanded = t.resolveTags ns tags expanded := by
  cases tags with
  | none => rfl
  | some type => exact congrArg (· >>= _) (t.resolveType_bare [] ns type expanded)

theorem resolveEntities_bare (decls : List (Scoped EntityDecl)) (expanded : Expanded) :
    t.bare.resolveEntities (decls.map (Scoped.map EntityDecl.bare)) expanded =
      t.resolveEntities decls expanded := by
  have hentity (d : Scoped EntityDecl) (expanded : Expanded) :
      t.bare.resolveEntity (d.map EntityDecl.bare) expanded = t.resolveEntity d expanded := by
    unfold resolveEntity
    simp only [Scoped.map, EntityDecl.bare, resolveShape_bare, resolveTags_bare]
    rfl
  induction decls generalizing expanded with
  | nil => rfl
  | cons d rest ih =>
    rw [List.map_cons, resolveEntities, resolveEntities, hentity]
    simp only [ih]

theorem resolveContext_bare (ns : String) (uid : EntityUid) (context : Option TypeExpr)
    (expanded : Expanded) :
    t.bare.resolveContext ns uid (context.map TypeExpr.bare) expanded =
      t.resolveContext ns uid context expanded := by
  cases context with
  | none => rfl
  | some type => exact congrArg (· >>= _) (t.resolveType_bare [] ns type expanded)

theorem resolveAppliesTo_bare (ns : String) (uid : EntityUid) (a : Option AppliesTo)
    (expanded : Expanded) :
    t.bare.resolveAppliesTo ns uid (a.map AppliesTo.bare) expanded =
      t.resolveAppliesTo ns uid a expanded := by
  cases a with
  | none => rfl
  | some a =>
    rw [Option.map_some, resolveAppliesTo, resolveAppliesTo]
    simp only [AppliesTo.bare, resolveContext_bare]
    rfl

/-- A declaration without its comments, under one of its names. -/
theorem resolveActions_bare (decls : List (Scoped ActionDecl × String)) (expanded : Expanded) :
    t.bare.resolveActions (decls.map (Prod.map (Scoped.map ActionDecl.bare) id)) expanded =
      t.resolveActions decls expanded := by
  have haction (d : Scoped ActionDecl) (name : String) (expanded : Expanded) :
      t.bare.resolveAction (d.map ActionDecl.bare) name expanded =
        t.resolveAction d name expanded := by
    unfold resolveAction
    simp only [Scoped.map, ActionDecl.bare, resolveAppliesTo_bare]
  induction decls generalizing expanded with
  | nil => rfl
  | cons d rest ih =>
    obtain ⟨d, name⟩ := d
    rw [List.map_cons, Prod.map, resolveActions, resolveActions, haction]
    simp only [ih, id]

theorem namedActions_bare :
    t.bare.namedActions = t.namedActions.map (Prod.map (Scoped.map ActionDecl.bare) id) := by
  unfold namedActions
  rw [bare, List.flatMap_map, List.map_flatMap]
  refine List.flatMap_congr fun d _ => ?_
  rw [List.map_map]
  rfl

end SymbolTable

/-! ## Schemas -/

namespace Schema

/-- A schema resolves to the same as without its comments, or fails with the same error. -/
theorem resolve_bare (s : Schema) : s.bare.resolve = s.resolve := by
  unfold resolve
  rw [SymbolTable.ofSchema_bare]
  cases SymbolTable.ofSchema s with
  | error e => rfl
  | ok t =>
    have henums : t.bare.enums.flatMap SymbolTable.resolveEnum =
        t.enums.flatMap SymbolTable.resolveEnum := by
      rw [SymbolTable.bare, List.flatMap_map]
      rfl
    show (t.bare.expandCommonTypes >>= _) = (t.expandCommonTypes >>= _)
    rw [t.expandCommonTypes_bare]
    refine bind_congr fun expanded => ?_
    show (t.bare.resolveEntities (t.entities.map _) expanded >>= _) = _
    rw [t.resolveEntities_bare]
    refine bind_congr fun x => ?_
    dsimp only
    rw [t.namedActions_bare, t.resolveActions_bare, henums]

end Schema

/-! ## Documents -/

mutual

theorem members_bare : (type : TypeExpr) → type.bare.members = type.members
  | .path _ => rfl
  | .entity _ => rfl
  | .set element => by rw [TypeExpr.bare, TypeExpr.members, TypeExpr.members, members_bare element]
  | .record r => recordMembers_bare r
termination_by structural type => type

theorem recordMembers_bare : (r : Record TypeExpr) →
    Record.members (Record.bare r) = Record.members r
  | ⟨attributes, _⟩ => by
    rw [Record.bare, Record.members, Record.members, attributeMembers_bare attributes]
termination_by structural r => r

theorem attributeMembers_bare : (attributes : List (Attribute TypeExpr)) →
    attributeMembers (bareAttributes attributes) = attributeMembers attributes
  | [] => rfl
  | ⟨_, type, _, _, _⟩ :: rest => by
    rw [bareAttributes, attributeMembers, attributeMembers, members_bare type,
      attributeMembers_bare rest]
termination_by structural attributes => attributes

end

theorem optionalMember_bare {α : Type} (key : String) (write : α → Json) {f : α → α}
    (h : ∀ a, write (f a) = write a) (a : Option α) :
    optionalMember key write (a.map f) = optionalMember key write a := by
  cases a with
  | none => rfl
  | some a => exact congrArg (fun j => [(key, j)]) (h a)

theorem document_bare_type (type : TypeExpr) : type.bare.document = type.document :=
  congrArg Json.ofMembers (members_bare type)

theorem EntityDecl.document_bare (d : EntityDecl) : d.bare.document = d.document := by
  unfold EntityDecl.document EntityDecl.bare
  dsimp only
  rw [optionalMember_bare "shape" (fun r => .ofMembers (Record.members r)) fun r =>
      congrArg Json.ofMembers (recordMembers_bare r),
    optionalMember_bare "tags" TypeExpr.document document_bare_type]

theorem AppliesTo.document_bare (a : AppliesTo) : a.bare.document = a.document := by
  unfold AppliesTo.document AppliesTo.bare
  rw [optionalMember_bare "context" TypeExpr.document document_bare_type]

theorem ActionDecl.document_bare (d : ActionDecl) : d.bare.document = d.document := by
  unfold ActionDecl.document ActionDecl.bare
  rw [optionalMember_bare "appliesTo" AppliesTo.document AppliesTo.document_bare]

theorem CommonTypeDecl.document_bare (d : CommonTypeDecl) : d.bare.document = d.document := by
  unfold CommonTypeDecl.document CommonTypeDecl.bare
  rw [members_bare]

namespace Decl

theorem entityTypeMembers_bare (d : Decl) : d.bare.entityTypeMembers = d.entityTypeMembers := by
  cases d with
  | entity d => exact congrArg (fun j => d.names.map fun n => (n, j)) d.document_bare
  | _ => rfl

theorem actionMembers_bare (d : Decl) : d.bare.actionMembers = d.actionMembers := by
  cases d with
  | action d => exact congrArg (fun j => d.names.map fun n => (n, j)) d.document_bare
  | _ => rfl

theorem commonTypeMembers_bare (d : Decl) : d.bare.commonTypeMembers = d.commonTypeMembers := by
  cases d with
  | commonType d => exact congrArg (fun j => [(d.name, j)]) d.document_bare
  | _ => rfl

end Decl

namespace Schema

theorem annotationsOf_bare (s : Schema) (ns : String) :
    s.bare.annotationsOf ns = s.annotationsOf ns := by
  unfold annotationsOf bare
  rw [List.flatMap_map]
  refine List.flatMap_congr fun i _ => ?_
  cases i <;> rfl

/-- A schema has the same document as without its comments. -/
theorem document_bare (s : Schema) : s.bare.document = s.document := by
  unfold document
  rw [s.entries_namespaces_bare, List.map_map]
  refine congrArg Json.object (List.map_congr_left fun e _ => ?_)
  show (e.1, namespaceDocument (s.bare.annotationsOf e.1) (e.2.map Decl.bare)) = _
  unfold namespaceDocument
  simp only [annotationsOf_bare, List.flatMap_map, Decl.entityTypeMembers_bare,
    Decl.actionMembers_bare, Decl.commonTypeMembers_bare]

end Schema

end CedarSchema
