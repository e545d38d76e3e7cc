import CedarSchema.Proofs.Resolve.Criterion
import CedarSchema.Proofs.Schema.Writable

/-
  Faults that no writable schema has. A common type with a reserved name and a record that repeats
  an attribute are found by resolution as well as by reading; in a schema that text can express
  resolution finds neither, whatever else it finds (`Schema.Writable.ends_resolve`).
-/

namespace CedarSchema

open SymbolTable

/-- The error is one that a text is refused for already: a reserved name or a repeated attribute. -/
def ResolveError.IsIllFormed : ResolveError → Prop
  | reservedName _ => True
  | duplicate .field _ => True
  | _ => False

theorem ResolveError.IsUndefined.not_isIllFormed {e : ResolveError} (h : e.IsUndefined) :
    ¬e.IsIllFormed := by
  cases e with
  | undefinedType name ns => exact id
  | undefinedBuiltin name => exact id
  | _ => exact h.elim

theorem ActionDict.Faults.not_isIllFormed {actions : ActionDict} {e : ResolveError}
    (h : actions.Faults e) : ¬e.IsIllFormed := by
  cases e with
  | undefinedAction action parent => exact id
  | actionCycle cycle => exact id
  | _ => exact h.elim

/-- The computation gives a value or fails, but not for what a text is refused for. -/
def NotIllFormed {α : Type} (r : Except ResolveError α) : Prop :=
  Ends (fun e => ¬e.IsIllFormed) r fun _ => True

theorem NotIllFormed.bind {α β : Type} {r : Except ResolveError α} {f : α → Except ResolveError β}
    (hr : NotIllFormed r) (hf : ∀ a, NotIllFormed (f a)) : NotIllFormed (r >>= f) :=
  Ends.bind hr fun a _ => hf a

theorem NotIllFormed.map {α β : Type} {r : Except ResolveError α} {f : α → β}
    (hr : NotIllFormed r) : NotIllFormed (f <$> r) := Ends.map hr

/-! ## Declaring -/

namespace SymbolTable

theorem notIllFormed_declareEntityTypes (t : SymbolTable) (ns : String) (names : List String) :
    NotIllFormed (names.foldlM (fun t n => t.declareEntityType (qualify ns n)) t) := by
  refine Ends.foldlM trivial fun t _ n _ => ?_
  rw [declareEntityType]
  split
  · exact id
  · trivial

theorem notIllFormed_declareActions (t : SymbolTable) (ns : String) (names : List String) :
    NotIllFormed (names.foldlM (fun t n => t.declareAction ⟨actionType ns, n⟩) t) := by
  refine Ends.foldlM trivial fun t _ n _ => ?_
  rw [declareAction]
  split
  · exact id
  · trivial

theorem notIllFormed_declare (t : SymbolTable) (ns : String) {d : Decl} (hd : d.WritableBody) :
    NotIllFormed (t.declare ns d) := by
  cases d with
  | entity d => exact (notIllFormed_declareEntityTypes t ns d.names).bind fun _ => trivial
  | enum d => exact (notIllFormed_declareEntityTypes t ns d.names).bind fun _ => trivial
  | action d => exact (notIllFormed_declareActions t ns d.names).bind fun _ => trivial
  | commonType d =>
    rw [declare, CommonTypeDecl.Writable.notReserved hd, if_neg Bool.false_ne_true,
      declareCommonType]
    split
    · exact id
    · trivial

/-! ## Resolving types -/

theorem notIllFormed_lookupEntityType (t : SymbolTable) (ns : String) (p : Path) :
    NotIllFormed (t.lookupEntityType ns p) :=
  (ends_lookupEntityType t ns p).mono (fun _ _ => trivial) fun _ he => he.not_isIllFormed

/-- The common types of the table have writable bodies. -/
def WritableBodies (t : SymbolTable) : Prop :=
  ∀ name d, t.commonType? name = some d → d.decl.type.Writable

section

variable {t : SymbolTable}

mutual

theorem notIllFormed_resolveType (ht : t.WritableBodies) (chain : List String) (ns : String) :
    (type : TypeExpr) → type.Writable → (expanded : Expanded) →
      NotIllFormed (t.resolveType chain ns type expanded)
  | .path p, _, expanded => by
    rw [resolveType]
    split
    · rename_i e he
      exact ((ends_lookupType t ns p).of_error he).not_isIllFormed
    · trivial
    · trivial
    · exact notIllFormed_expand ht chain _ expanded
  | .entity p, _, expanded => by
    rw [resolveType]
    exact (notIllFormed_lookupEntityType t ns p).bind fun _ => trivial
  | .set element, h, expanded => by
    rw [resolveType]
    exact (notIllFormed_resolveType ht chain ns element h expanded).bind fun _ => trivial
  | .record r, h, expanded => by
    rw [resolveType.eq_def]
    exact (notIllFormed_resolveRecord ht chain ns r h expanded).bind fun _ => trivial
termination_by type => (t.unvisited chain, sizeOf type)

theorem notIllFormed_resolveRecord (ht : t.WritableBodies) (chain : List String) (ns : String) :
    (r : Record TypeExpr) → Record.Writable r → (expanded : Expanded) →
      NotIllFormed (t.resolveFields chain ns .empty r.attributes expanded)
  | ⟨attributes, comments⟩, h, expanded => by
    refine notIllFormed_resolveFields ht chain ns .empty attributes h.1 ?_ expanded
    rw [Dict.keys_empty, List.append_nil]
    exact h.2.1
termination_by r => (t.unvisited chain, sizeOf r)

theorem notIllFormed_resolveFields (ht : t.WritableBodies) (chain : List String) (ns : String)
    (fields : Dict String (Field ResolvedType)) : (attributes : List (Attribute TypeExpr)) →
    WritableAttributes attributes → (attributes.map Attribute.name ++ fields.keys).Nodup →
      (expanded : Expanded) → NotIllFormed (t.resolveFields chain ns fields attributes expanded)
  | [], _, _, expanded => by
    rw [resolveFields]
    trivial
  | ⟨name, type, required, annotations, comments⟩ :: rest, h, hnodup, expanded => by
    have hnew : name ∉ fields.keys := fun hmem =>
      (List.nodup_cons.1 hnodup).1 (List.mem_append_right _ hmem)
    rw [resolveFields]
    refine (notIllFormed_resolveType ht chain ns type h.1.1 expanded).bind ?_
    intro ⟨type', expanded⟩
    dsimp only
    rw [if_neg fun hmem => hnew (Dict.contains_iff.1 hmem)]
    refine notIllFormed_resolveFields ht chain ns (fields.insert name _) rest h.2 ?_ expanded
    exact (Dict.nodup_append_keys_insert _ hnew _).2 hnodup
termination_by attributes => (t.unvisited chain, sizeOf attributes)

theorem notIllFormed_expand (ht : t.WritableBodies) (chain : List String) (name : String)
    (expanded : Expanded) : NotIllFormed (t.expand chain name expanded) := by
  rw [expand_eq]
  split
  · trivial
  · split
    · exact id
    · rename_i hn
      cases hd : t.commonType? name with
      | none => exact id
      | some d =>
        -- The chain grows by a declared name, which is what makes the recursion end.
        have hlt := unvisited_append_lt hd (Bool.eq_false_iff.2 hn)
        exact (notIllFormed_resolveType ht (chain ++ [name]) d.ns d.decl.type (ht name d hd)
          expanded).map
termination_by (t.unvisited chain, 0)

end

theorem notIllFormed_expandCommonTypes (ht : t.WritableBodies) : NotIllFormed t.expandCommonTypes :=
  Ends.foldlM trivial fun expanded _ name _ => (notIllFormed_expand ht [] name expanded).map

/-! ## Resolving declarations -/

theorem notIllFormed_resolveRefs (t : SymbolTable) (ns : String) (refs : List Path) :
    NotIllFormed (t.resolveRefs ns refs) :=
  (Ends.mapM fun p _ => notIllFormed_lookupEntityType t ns p).imp fun _ _ => trivial

theorem notIllFormed_resolveShape (ht : t.WritableBodies) (ns : String)
    {shape : Option (Record TypeExpr)} (h : ∀ r ∈ shape, Record.Writable r) (expanded : Expanded) :
    NotIllFormed (t.resolveShape ns shape expanded) := by
  cases shape with
  | none => trivial
  | some r => exact (notIllFormed_resolveRecord ht [] ns r (h r rfl) expanded).bind fun _ => trivial

theorem notIllFormed_resolveTags (ht : t.WritableBodies) (ns : String) {tags : Option TypeExpr}
    (h : ∀ type ∈ tags, type.Writable) (expanded : Expanded) :
    NotIllFormed (t.resolveTags ns tags expanded) := by
  cases tags with
  | none => trivial
  | some type =>
    exact (notIllFormed_resolveType ht [] ns type (h type rfl) expanded).bind fun _ => trivial

theorem notIllFormed_resolveEntity (ht : t.WritableBodies) {d : Scoped EntityDecl}
    (hd : d.decl.Writable) (expanded : Expanded) : NotIllFormed (t.resolveEntity d expanded) := by
  refine (notIllFormed_resolveRefs t d.ns d.decl.parents).bind fun parents => ?_
  refine (notIllFormed_resolveShape ht d.ns hd.shape expanded).bind fun ⟨shape, expanded⟩ => ?_
  exact (notIllFormed_resolveTags ht d.ns hd.tags expanded).bind fun _ => trivial

theorem notIllFormed_resolveEntities (ht : t.WritableBodies) {decls : List (Scoped EntityDecl)}
    (h : ∀ d ∈ decls, d.decl.Writable) (expanded : Expanded) :
    NotIllFormed (t.resolveEntities decls expanded) := by
  induction decls generalizing expanded with
  | nil => trivial
  | cons d decls ih =>
    obtain ⟨hd, hdecls⟩ := List.forall_mem_cons.1 h
    rw [resolveEntities]
    refine (notIllFormed_resolveEntity ht hd expanded).bind fun x => ?_
    obtain ⟨entities, expanded⟩ := x
    exact (ih hdecls expanded).bind fun _ => trivial

theorem notIllFormed_resolveContext (ht : t.WritableBodies) (ns : String) (uid : EntityUid)
    {context : Option TypeExpr} (h : ∀ type ∈ context, type.Writable) (expanded : Expanded) :
    NotIllFormed (t.resolveContext ns uid context expanded) := by
  cases context with
  | none => trivial
  | some type =>
    refine (notIllFormed_resolveType ht [] ns type (h type rfl) expanded).bind fun x => ?_
    split
    · trivial
    · exact id

theorem notIllFormed_resolveAction (ht : t.WritableBodies) {d : Scoped ActionDecl}
    (hd : d.decl.Writable) (name : String) (expanded : Expanded) :
    NotIllFormed (t.resolveAction d name expanded) := by
  have happlies : NotIllFormed
      (t.resolveAppliesTo d.ns ⟨actionType d.ns, name⟩ d.decl.appliesTo expanded) := by
    cases ha : d.decl.appliesTo with
    | none => trivial
    | some a =>
      refine (notIllFormed_resolveRefs t d.ns _).bind fun principals => ?_
      refine (notIllFormed_resolveRefs t d.ns _).bind fun resources => ?_
      exact (notIllFormed_resolveContext ht d.ns _ (hd.appliesTo a ha).context expanded).bind
        fun _ => trivial
  exact happlies.bind fun _ => trivial

theorem notIllFormed_resolveActions (ht : t.WritableBodies)
    {named : List (Scoped ActionDecl × String)} (h : ∀ x ∈ named, x.1.decl.Writable)
    (expanded : Expanded) : NotIllFormed (t.resolveActions named expanded) := by
  induction named generalizing expanded with
  | nil => trivial
  | cons x named ih =>
    obtain ⟨hx, hnamed⟩ := List.forall_mem_cons.1 h
    obtain ⟨d, name⟩ := x
    rw [resolveActions]
    refine (notIllFormed_resolveAction ht hx name expanded).bind fun x => ?_
    obtain ⟨action, expanded⟩ := x
    exact (ih hnamed expanded).bind fun _ => trivial

end

end SymbolTable

/-! ## Schemas -/

namespace Schema

variable {s : Schema}

theorem Writable.of_mem_declarations (h : s.Writable) {d : Scoped Decl}
    (hd : d ∈ s.declarations) : d.decl.Writable := by
  obtain ⟨i, hi, -, hd⟩ := mem_declarations_iff.1 hd
  have hw := h.items i hi
  cases i with
  | block b => exact NamespaceBlock.Writable.decls hw d.decl hd
  | decl d' =>
    rw [List.mem_singleton.1 hd]
    exact hw

theorem Writable.writableBodies (h : s.Writable) (hdistinct : s.table.Distinct) :
    s.table.WritableBodies := by
  intro name d hd
  have hmem := (commonType?_eq_some_iff hdistinct.commonTypes).1 hd
  have hw := (h.of_mem_declarations (mem_table_commonTypes.1 hmem).2).body
  exact CommonTypeDecl.Writable.type hw

/-- Resolution finds no fault in a writable schema that a text is refused for already. -/
theorem Writable.ends_resolve (h : s.Writable) : NotIllFormed s.resolve := by
  have htable : Ends (fun e => ¬e.IsIllFormed) (ofSchema s) fun t =>
      t = s.table ∧ s.table.Distinct := by
    have hwell : NotIllFormed (ofSchema s) := Ends.foldlM trivial fun t _ d hd =>
      notIllFormed_declare t d.ns (h.of_mem_declarations (s.scopedDecls_perm.mem_iff.1 hd)).body
    have hneeds := needs_ofSchema s
    cases ht : ofSchema s with
    | ok t =>
      obtain ⟨hdistinct, heq⟩ := Ends.of_ok hneeds ht
      exact ⟨heq, hdistinct⟩
    | error e => exact hwell.of_error ht
  refine Ends.bind htable fun t ⟨ht, hdistinct⟩ => ?_
  subst ht
  have hbodies := h.writableBodies hdistinct
  refine (notIllFormed_expandCommonTypes hbodies).bind fun expanded => ?_
  have hentities : ∀ d ∈ s.table.entities, d.decl.Writable := fun d hd =>
    (h.of_mem_declarations (mem_table_entities.1 hd)).body
  refine (notIllFormed_resolveEntities hbodies hentities expanded).bind ?_
  intro ⟨entities, expanded⟩
  have hactions : ∀ x ∈ s.table.namedActions, x.1.decl.Writable := fun x hx =>
    (h.of_mem_declarations (mem_table_actions.1 (mem_namedActions.1 hx).1)).body
  refine (notIllFormed_resolveActions hbodies hactions expanded).bind fun ⟨actions, _⟩ => ?_
  have hcheck := ActionDict.ends_check (actionDict actions)
  exact Ends.bind (hcheck.impError fun _ he => he.not_isIllFormed) fun _ _ => trivial

end Schema

end CedarSchema
