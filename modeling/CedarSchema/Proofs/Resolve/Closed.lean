import CedarSchema.Proofs.Resolve.Result

/-
  What a resolved schema holds. It has all that is declared, each under the name it bears, and it
  names nothing else: every entity type that is named anywhere in it, at any depth of its types, is
  one of its own, every parent of an action is one of its actions, and no action is a member of
  itself (`ResolvedSchema.Closed`).
-/

namespace CedarSchema

open SymbolTable

/-! ## The entity types that are named -/

mutual

/-- The entity types that a type names, at any depth. -/
def ResolvedType.entityNames : ResolvedType → List String
  | .set element => element.entityNames
  | .record fields => fieldEntityNames fields
  | .entity name => [name]
  | _ => []
termination_by structural type => type

def fieldEntityNames : List (String × Field ResolvedType) → List String
  | [] => []
  | (_, ⟨type, _, _⟩) :: rest => type.entityNames ++ fieldEntityNames rest
termination_by structural fields => fields

end

theorem mem_fieldEntityNames {fields : Fields} {n : String} :
    n ∈ fieldEntityNames fields ↔ ∃ f ∈ fields, n ∈ f.2.type.entityNames := by
  induction fields with
  | nil => simp [fieldEntityNames]
  | cons f fields ih =>
    obtain ⟨name, type, required, annotations⟩ := f
    simp [fieldEntityNames, ih]

def ResolvedEntity.entityNames (e : ResolvedEntity) : List String :=
  e.parents ++ (e.shape.map fieldEntityNames).getD [] ++
    (e.tags.map ResolvedType.entityNames).getD []

def ResolvedAppliesTo.entityNames (a : ResolvedAppliesTo) : List String :=
  a.principals ++ a.resources ++ fieldEntityNames a.context

def ResolvedAction.entityNames (a : ResolvedAction) : List String :=
  (a.appliesTo.map ResolvedAppliesTo.entityNames).getD []

/-- The entity types that are named anywhere in a resolved schema. -/
def ResolvedSchema.entityNames (r : ResolvedSchema) : List String :=
  r.entities.values.flatMap ResolvedEntity.entityNames ++
    r.actions.values.flatMap ResolvedAction.entityNames

/-! ## Named types are declared -/

theorem entityNames_of_builtinType {name : String} {type : ResolvedType}
    (h : builtinType name = some type) : type.entityNames = [] := by
  unfold builtinType at h
  split at h <;> cases h <;> rfl

namespace SymbolTable

variable {t : SymbolTable}

mutual

/-- A type that an expression stands for names declared entity types only. -/
theorem Denotes.entityNames_subset {ns : String} : {type : TypeExpr} → {type' : ResolvedType} →
    t.Denotes ns type type' → ∀ n ∈ type'.entityNames, n ∈ t.entityTypes
  | .path p, _, .builtin hp, n, hn => by
    obtain ⟨name, hname⟩ := (ends_lookupType t ns p).of_ok hp
    rw [entityNames_of_builtinType hname] at hn
    cases hn
  | .path p, _, .entityType hp, n, hn => by
    rw [List.mem_singleton.1 hn]
    exact (ends_lookupType t ns p).of_ok hp
  | .path _, _, .commonType _ _ h, n, hn => h.entityNames_subset n hn
  | .entity p, _, .entity hp, n, hn => by
    rw [List.mem_singleton.1 hn]
    exact (ends_lookupEntityType t ns p).of_ok hp
  | .set _, _, .set h, n, hn => h.entityNames_subset n hn
  | .record _, _, .record h, n, hn => h.entityNames_subset n hn

theorem DenotesRecord.entityNames_subset {ns : String} : {r : Record TypeExpr} →
    {fields : Fields} → t.DenotesRecord ns r fields →
      ∀ n ∈ fieldEntityNames fields, n ∈ t.entityTypes
  | _, _, .mk h hnodup, n, hn => by
    rw [← h.map_fst] at hnodup
    obtain ⟨f, hf, hn⟩ := mem_fieldEntityNames.1 hn
    have hf := (Dict.entries_ofList_perm hnodup).mem_iff.1 hf
    exact h.entityNames_subset n (mem_fieldEntityNames.2 ⟨f, hf, hn⟩)

theorem DenotesAll.entityNames_subset {ns : String} : {attributes : List (Attribute TypeExpr)} →
    {fields : Fields} → t.DenotesAll ns attributes fields →
      ∀ n ∈ fieldEntityNames fields, n ∈ t.entityTypes
  | _, _, .nil _, _, hn => nomatch hn
  | _, _, .cons h hrest, n, hn =>
    (List.mem_append.1 hn).elim (h.entityNames_subset n) (hrest.entityNames_subset n)

end

/-- What may be left out names nothing then. -/
theorem forall_mem_of_rel {α β : Type} {R : α → β → Prop} {f : β → List String} {P : String → Prop}
    {a : Option α} {b : Option β} (h : Option.Rel R a b)
    (hf : ∀ a b, R a b → ∀ n ∈ f b, P n) : ∀ n ∈ (b.map f).getD [], P n := by
  cases h with
  | none => exact nofun
  | some h => exact hf _ _ h

theorem RefsOf.subset {ns : String} {refs : List Path} {names : List String}
    (h : t.RefsOf ns refs names) : ∀ n ∈ names, n ∈ t.entityTypes := by
  intro n hn
  obtain ⟨p, -, hp⟩ := exists_of_forall₂_right h hn
  exact (ends_lookupEntityType t ns p).of_ok hp

theorem EntityOf.entityNames_subset {d : Scoped EntityDecl} {name : String} {e : ResolvedEntity}
    (h : t.EntityOf d name e) : ∀ n ∈ e.entityNames, n ∈ t.entityTypes := by
  obtain ⟨-, -, hparents, hshape, htags⟩ := h
  refine List.forall_mem_append.2 ⟨List.forall_mem_append.2 ⟨hparents.subset, ?_⟩, ?_⟩
  · exact forall_mem_of_rel hshape fun _ _ => DenotesRecord.entityNames_subset
  · exact forall_mem_of_rel htags fun _ _ => Denotes.entityNames_subset

theorem AppliesToOf.entityNames_subset {ns : String} {a : AppliesTo} {r : ResolvedAppliesTo}
    (h : t.AppliesToOf ns a r) : ∀ n ∈ r.entityNames, n ∈ t.entityTypes := by
  obtain ⟨hprincipals, hresources, hcontext⟩ := h
  refine List.forall_mem_append.2
    ⟨List.forall_mem_append.2 ⟨hprincipals.subset, hresources.subset⟩, ?_⟩
  generalize a.context = context, r.context = fields at hcontext
  cases hcontext with
  | none => exact nofun
  | some h => exact h.entityNames_subset

theorem ActionOf.entityNames_subset {d : Scoped ActionDecl} {name : String} {a : ResolvedAction}
    (h : t.ActionOf d name a) : ∀ n ∈ a.entityNames, n ∈ t.entityTypes :=
  forall_mem_of_rel h.appliesTo fun _ _ => AppliesToOf.entityNames_subset

end SymbolTable

/-! ## Resolved schemas -/

/-- The schema `r` has what the schema `s` declares, all of it and each once. -/
structure ResolvedSchema.Covers (r : ResolvedSchema) (s : Schema) : Prop where
  entities : r.entities.keys.Perm s.entityNames
  enums : r.enums.keys.Perm s.enumNames
  nodup : (r.entities.keys ++ r.enums.keys).Nodup
  actions : r.actions.keys.Perm s.actionUids

/-- All stands under its own name, all that is named is there, and no action is a member of
itself. -/
structure ResolvedSchema.Closed (r : ResolvedSchema) : Prop where
  entities : ∀ name e, r.entities.find? name = some e → e.name = name
  enums : ∀ name e, r.enums.find? name = some e → e.name = name
  actions : ∀ uid a, r.actions.find? uid = some a → a.uid = uid
  entityNames : ∀ n ∈ r.entityNames, n ∈ r.entities.keys ++ r.enums.keys
  parents : ∀ a ∈ r.actions.values, ∀ p ∈ a.parents, p ∈ r.actions.keys
  acyclic : Acyclic (ActionDict.HasParent r.actions)

namespace Schema

variable {s : Schema} {r : ResolvedSchema}

/-- A resolved schema covers the schema it comes from and refers to nothing outside of itself. -/
theorem covers_and_closed_of_resolve (h : s.resolve = .ok r) : r.Covers s ∧ r.Closed := by
  cases (ends_resolve s).of_ok h with
  | @mk entities actions hbound hentities hactions hclosed hacyclic =>
    have hperm := hentities.map_name_perm
    have hnodup := hperm.nodup_iff.2 hbound.distinct.entityTypes
    have huids : (actions.map ResolvedAction.uid).Nodup :=
      hactions.map_uid ▸ hbound.distinct.actionUids
    -- With all names distinct no entry of a dictionary takes the place of another.
    obtain ⟨hentity, henum, -⟩ := List.nodup_append.1 hnodup
    have hkeys := Dict.keys_ofList_map_perm hentity
    have hkeys' := Dict.keys_ofList_map_perm henum
    have hall := hkeys.append hkeys'
    constructor
    · refine ⟨hkeys.trans ?_, hkeys'.trans ?_, hall.nodup_iff.2 hnodup,
        hactions.keys_perm hbound.distinct⟩
      · rw [hentities.map_name]
        exact s.scopedDecls_perm.flatMap_right _
      · rw [enums_map_name]
        exact s.scopedDecls_perm.flatMap_right _
    · refine ⟨fun name e he => ?_, fun name e he => ?_, fun uid a ha => ?_, fun n hn => ?_, hclosed,
        hacyclic⟩
      · exact ((Dict.find?_ofList_map_iff hentity).1 he).2
      · exact ((Dict.find?_ofList_map_iff henum).1 he).2
      · exact ((Dict.find?_ofList_map_iff huids).1 ha).2
      · refine (hall.trans hperm).mem_iff.2 ?_
        rcases List.mem_append.1 hn with hn | hn
        · obtain ⟨e, he, hn⟩ := List.mem_flatMap.1 hn
          have he := (Dict.values_ofList_map_perm hentity).mem_iff.1 he
          obtain ⟨x, -, hof⟩ := exists_of_forall₂_right hentities he
          exact hof.entityNames_subset n hn
        · obtain ⟨a, ha, hn⟩ := List.mem_flatMap.1 hn
          have ha := (Dict.values_ofList_map_perm huids).mem_iff.1 ha
          obtain ⟨x, -, hof⟩ := exists_of_forall₂_right hactions ha
          exact hof.entityNames_subset n hn

theorem covers_and_closed_of_resolve_follows :
    ∃ r, follows.resolve = .ok r ∧ r.Covers follows ∧ r.Closed := by
  obtain ⟨r, hr⟩ := exists_resolve_follows
  exact ⟨r, hr, covers_and_closed_of_resolve hr⟩

end Schema

end CedarSchema
