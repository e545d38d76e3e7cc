import CedarSchema.Proofs.Outcome
import CedarSchema.Resolve.Expansion

/-
  What references find. A reference by name goes through common types and entity types of two
  namespaces and through the built-in types (`lookupType_cases`), a reference to an entity type
  through entity types alone. Both try the names in the same order, so an entity type that the first
  finds the second finds too (`lookupEntityType_of_lookupType`). The other way around something may
  come first: the built-in types behind the segment that is reserved for them, or a common type
  under one of the names. A reference with neither is `Unshadowed`. As a name it finds the entity
  type that it finds as a reference to one, and only if there is none it may find a built-in type
  (`lookupType_of_unshadowed`).
-/

namespace CedarSchema

/-- Whether an error says that a name has no binding. -/
def ResolveError.IsUndefined : ResolveError → Prop
  | undefinedType .. => True
  | undefinedBuiltin _ => True
  | _ => False

theorem builtinType_ne_record (name : String) (fields : Fields) :
    builtinType name ≠ some (.record fields) := by
  unfold builtinType
  split <;> simp

theorem builtinType_ne_entity (name entity : String) :
    builtinType name ≠ some (.entity entity) := by
  unfold builtinType
  split <;> simp

/-- What is bound to a name is declared, or built in. -/
def Binding.Declared (t : SymbolTable) : Binding → Prop
  | commonType name => ∃ d, t.commonType? name = some d
  | entityType name => name ∈ t.entityTypes
  | builtin type => ∃ name, builtinType name = some type

namespace SymbolTable

variable {t : SymbolTable} {ns name : String} {p : Path} {b : Binding}

theorem hasEntityType_iff : t.hasEntityType name = true ↔ name ∈ t.entityTypes :=
  List.contains_iff_mem

/-! ## What is found -/

theorem bindFull_cases (h : t.bindFull name = some b) :
    t.hasCommonType name = true ∧ b = .commonType name ∨
      t.hasEntityType name = true ∧ b = .entityType name := by
  unfold bindFull at h
  split at h
  · rename_i hcommon
    exact .inl ⟨hcommon, (Option.some.inj h).symm⟩
  · split at h
    · rename_i hentity
      exact .inr ⟨hentity, (Option.some.inj h).symm⟩
    · cases h

theorem bindUnqualified_cases (h : t.bindUnqualified ns name = some b) :
    t.bindFull (qualify ns name) = some b ∨
      t.bindFull (qualify ns name) = none ∧
        (t.bindFull name = some b ∨ ∃ type, builtinType name = some type ∧ b = .builtin type) := by
  simp only [bindUnqualified, Option.orElse_eq_orElse, Option.orElse_eq_or,
    Option.or_eq_some_iff] at h
  rcases h with h | ⟨hown, h | ⟨-, h⟩⟩
  · exact .inl h
  · exact .inr ⟨hown, .inl h⟩
  · obtain ⟨type, htype, rfl⟩ := Option.map_eq_some_iff.1 h
    exact .inr ⟨hown, .inr ⟨type, htype, rfl⟩⟩

theorem lookupType_cases (h : t.lookupType ns p = .ok b) :
    (p.isQualified = true ∧ p.segments.head? = some builtinNamespace ∧
        ∃ type, builtinType (Text.join "::" p.segments.tail) = some type ∧ b = .builtin type) ∨
      (p.isQualified = true ∧ p.segments.head? ≠ some builtinNamespace ∧
        t.bindFull p.text = some b) ∨
      (p.isQualified = false ∧ t.bindUnqualified ns p.basename = some b) := by
  unfold lookupType at h
  split at h
  · rename_i hqualified
    split at h
    · rename_i hhead
      dsimp only at h
      split at h
      · rename_i type htype
        exact .inl ⟨hqualified, hhead, type, htype, (Except.ok.inj h).symm⟩
      · cases h
    · rename_i hhead
      split at h
      · rename_i hfull
        cases h
        exact .inr (.inl ⟨hqualified, hhead, hfull⟩)
      · cases h
  · rename_i hqualified
    split at h
    · rename_i hbound
      cases h
      exact .inr (.inr ⟨Bool.eq_false_iff.2 hqualified, hbound⟩)
    · cases h

theorem declared_bindFull (h : t.bindFull name = some b) : b.Declared t := by
  rcases bindFull_cases h with ⟨hcommon, rfl⟩ | ⟨hentity, rfl⟩
  · exact Option.isSome_iff_exists.1 hcommon
  · exact hasEntityType_iff.1 hentity

theorem declared_bindUnqualified (h : t.bindUnqualified ns name = some b) : b.Declared t := by
  rcases bindUnqualified_cases h with h | ⟨-, h | ⟨type, htype, rfl⟩⟩
  · exact declared_bindFull h
  · exact declared_bindFull h
  · exact ⟨name, htype⟩

/-- A name is bound to something declared, or it is undefined. -/
theorem ends_lookupType (t : SymbolTable) (ns : String) (p : Path) :
    Ends ResolveError.IsUndefined (t.lookupType ns p) (Binding.Declared t) := by
  unfold lookupType
  split
  · split
    · dsimp only
      split
      · rename_i type htype
        exact ⟨_, htype⟩
      · trivial
    · split
      · rename_i b hb
        exact declared_bindFull hb
      · trivial
  · split
    · rename_i b hb
      exact declared_bindUnqualified hb
    · trivial

theorem ends_lookupEntityType (t : SymbolTable) (ns : String) (p : Path) :
    Ends ResolveError.IsUndefined (t.lookupEntityType ns p) (· ∈ t.entityTypes) := by
  unfold lookupEntityType
  split
  · rename_i name hname
    exact hasEntityType_iff.1 (List.find?_some hname)
  · trivial

/-! ## Tables that declare the same names -/

/-- The tables declare the same names of types. What is declared under them does not matter to what
a reference finds. -/
structure SameNames (t t' : SymbolTable) : Prop where
  entityTypes : ∀ name, t'.hasEntityType name = t.hasEntityType name
  commonTypes : ∀ name, t'.hasCommonType name = t.hasCommonType name

namespace SameNames

variable {t' : SymbolTable} (h : t.SameNames t')

include h

theorem bindFull_eq (name : String) : t'.bindFull name = t.bindFull name := by
  rw [bindFull, bindFull, h.commonTypes, h.entityTypes]

theorem lookupType_eq (ns : String) (p : Path) : t'.lookupType ns p = t.lookupType ns p := by
  simp only [lookupType, bindUnqualified, h.bindFull_eq]

theorem lookupEntityType_eq (ns : String) (p : Path) :
    t'.lookupEntityType ns p = t.lookupEntityType ns p := by
  have hentity : t'.hasEntityType = t.hasEntityType := funext h.entityTypes
  rw [lookupEntityType, lookupEntityType, hentity]

end SameNames

/-! ## Names and references to entity types -/

theorem hasEntityType_of_bindFull {found : String}
    (h : t.bindFull name = some (.entityType found)) :
    t.hasEntityType name = true ∧ found = name := by
  rcases bindFull_cases h with ⟨-, ⟨⟩⟩ | ⟨hentity, heq⟩
  exact ⟨hentity, Binding.entityType.inj heq⟩

theorem not_hasEntityType_of_bindFull (h : t.bindFull name = none) :
    ¬t.hasEntityType name = true := by
  intro hentity
  unfold bindFull at h
  rw [hentity] at h
  split at h <;> cases h

/-- An entity type that a name finds is found by the reference to an entity type. -/
theorem lookupEntityType_of_lookupType (h : t.lookupType ns p = .ok (.entityType name)) :
    t.lookupEntityType ns p = .ok name := by
  have hfind : (entityCandidates ns p).find? t.hasEntityType = some name := by
    unfold entityCandidates
    rcases lookupType_cases h with ⟨-, -, _, -, ⟨⟩⟩ | ⟨hqualified, -, hfull⟩ | ⟨hqualified, hbound⟩
    · obtain ⟨hentity, rfl⟩ := hasEntityType_of_bindFull hfull
      rw [if_pos hqualified, List.find?_cons_of_pos hentity]
    · rw [if_neg (Bool.eq_false_iff.1 hqualified)]
      rcases bindUnqualified_cases hbound with hown | ⟨hown, hroot | ⟨_, -, ⟨⟩⟩⟩
      · obtain ⟨hentity, rfl⟩ := hasEntityType_of_bindFull hown
        rw [List.find?_cons_of_pos hentity]
      · obtain ⟨hentity, rfl⟩ := hasEntityType_of_bindFull hroot
        rw [List.find?_cons_of_neg (not_hasEntityType_of_bindFull hown),
          List.find?_cons_of_pos hentity]
  rw [lookupEntityType, hfind]

/-- Neither a built-in type nor a common type comes before the entity types that the reference may
name: it does not stand below the segment for built-in types, and no common type is declared under
a name that it may stand for. -/
structure Unshadowed (t : SymbolTable) (ns : String) (p : Path) : Prop where
  notBuiltin : p.isQualified = true → p.segments.head? ≠ some builtinNamespace
  noCommonType : ∀ name ∈ entityCandidates ns p, t.hasCommonType name = false

theorem bindFull_of_noCommonType (h : t.hasCommonType name = false) :
    t.bindFull name = if t.hasEntityType name then some (.entityType name) else none := by
  rw [bindFull, h]
  rfl

theorem bindUnqualified_of_noCommonType (hown : t.hasCommonType (qualify ns name) = false)
    (hroot : t.hasCommonType name = false) :
    t.bindUnqualified ns name =
      (([qualify ns name, name].find? t.hasEntityType).map .entityType <|>
        (builtinType name).map .builtin) := by
  rw [bindUnqualified, bindFull_of_noCommonType hown, bindFull_of_noCommonType hroot]
  cases hentity : t.hasEntityType (qualify ns name) with
  | true => simp [hentity]
  | false => cases hentity' : t.hasEntityType name <;> simp [hentity, hentity']

/-- What an unshadowed name finds: the entity type that the reference to an entity type finds, and
else the built-in type of that name. -/
theorem lookupType_of_unshadowed (h : t.Unshadowed ns p) :
    t.lookupType ns p =
      match t.lookupEntityType ns p with
      | .ok name => .ok (.entityType name)
      | .error e =>
        match if p.isQualified then none else builtinType p.basename with
        | some type => .ok (.builtin type)
        | none => .error e := by
  obtain ⟨hbuiltin, hcommon⟩ := h
  unfold lookupType lookupEntityType
  unfold entityCandidates at hcommon ⊢
  by_cases hqualified : p.isQualified = true
  · rw [if_pos hqualified] at hcommon
    have hfull := bindFull_of_noCommonType (hcommon p.text (List.mem_singleton.2 rfl))
    simp only [if_pos hqualified, if_neg (hbuiltin hqualified), hfull]
    cases hentity : t.hasEntityType p.text <;> simp [hentity]
  · rw [if_neg hqualified] at hcommon
    have hown := hcommon (qualify ns p.basename) List.mem_cons_self
    have hroot := hcommon p.basename (List.mem_cons_of_mem _ List.mem_cons_self)
    simp only [if_neg hqualified, bindUnqualified_of_noCommonType hown hroot]
    cases [qualify ns p.basename, p.basename].find? t.hasEntityType with
    | some name => rfl
    | none => cases builtinType p.basename <;> rfl

/-- What an unshadowed name stands for. -/
theorem resolveType_of_unshadowed (h : t.Unshadowed ns p) (chain : List String)
    (expanded : Expanded) :
    t.resolveType chain ns (.path p) expanded =
      match t.lookupEntityType ns p with
      | .ok name => .ok (.entity name, expanded)
      | .error e =>
        match if p.isQualified then none else builtinType p.basename with
        | some type => .ok (type, expanded)
        | none => .error e := by
  rw [resolveType, lookupType_of_unshadowed h]
  cases t.lookupEntityType ns p with
  | ok name => rfl
  | error e => cases if p.isQualified then none else builtinType p.basename <;> rfl

/-- The two lookups agree. The entity type that a reference finds as a name it finds as a reference
to an entity type, and the other way around where nothing shadows it. Such a reference then stands
for an entity type as a name if and only if it does as a reference to one. -/
theorem lookups_agree (t : SymbolTable) (ns : String) (p : Path) (name : String) :
    (t.lookupType ns p = .ok (.entityType name) → t.lookupEntityType ns p = .ok name) ∧
      (t.Unshadowed ns p →
        (t.lookupEntityType ns p = .ok name → t.lookupType ns p = .ok (.entityType name)) ∧
        ∀ (chain : List String) (expanded expanded' : Expanded),
          t.resolveType chain ns (.path p) expanded = .ok (.entity name, expanded') ↔
            t.resolveType chain ns (.entity p) expanded = .ok (.entity name, expanded')) := by
  refine ⟨lookupEntityType_of_lookupType, fun h => ⟨fun hname => ?_, fun chain expanded _ => ?_⟩⟩
  · rw [lookupType_of_unshadowed h, hname]
  · rw [resolveType_of_unshadowed h, resolveType]
    cases t.lookupEntityType ns p with
    | ok found => exact Iff.rfl
    | error e =>
      -- As a name the reference may still stand for a built-in type, which is no entity type.
      refine iff_of_false (fun hpath => ?_) fun hentity => ?_
      · dsimp only at hpath
        split at hpath
        · rename_i type htype
          cases hpath
          split at htype
          · cases htype
          · exact builtinType_ne_entity p.basename name htype
        · cases hpath
      · cases hentity

/-- Users of an application beside users of the whole schema, and a common type of the application
that bears the name of an entity type. -/
def usersAndTeams : SymbolTable where
  commonTypes := [("App::Team", ⟨"App", { name := "Team", type := .path ⟨["Long"]⟩ }⟩)]
  entityTypes := ["User", "App::User", "Team"]

/-- In the application the users of the application are meant. Its teams are shadowed. -/
theorem lookups_agree_usersAndTeams :
    let t := usersAndTeams
    t.Unshadowed "App" ⟨["User"]⟩ ∧ t.lookupType "App" ⟨["User"]⟩ = .ok (.entityType "App::User") ∧
      t.lookupEntityType "App" ⟨["User"]⟩ = .ok "App::User" ∧
      t.resolveType [] "App" (.path ⟨["User"]⟩) .empty = .ok (.entity "App::User", .empty) ∧
      ¬t.Unshadowed "App" ⟨["Team"]⟩ ∧ t.lookupEntityType "App" ⟨["Team"]⟩ = .ok "Team" ∧
      t.lookupType "App" ⟨["Team"]⟩ = .ok (.commonType "App::Team") := by
  intro t
  have hunshadowed : t.Unshadowed "App" ⟨["User"]⟩ := ⟨by decide, by decide⟩
  have hteam : t.lookupType "App" ⟨["Team"]⟩ = .ok (.commonType "App::Team") := rfl
  have hteam' : t.lookupEntityType "App" ⟨["Team"]⟩ = .ok "Team" := rfl
  have huser : t.lookupEntityType "App" ⟨["User"]⟩ = .ok "App::User" := rfl
  obtain ⟨hfound, hagree⟩ := lookups_agree t "App" ⟨["User"]⟩ "App::User"
  obtain ⟨hname, hresolved⟩ := hagree hunshadowed
  refine ⟨hunshadowed, hname huser, hfound (hname huser), (hresolved [] .empty .empty).2 ?_, ?_,
    hteam', hteam⟩
  · rw [resolveType, huser]
    rfl
  · intro h
    have hname := ((lookups_agree t "App" ⟨["Team"]⟩ "Team").2 h).1 hteam'
    rw [hteam] at hname
    cases hname

end SymbolTable

end CedarSchema
