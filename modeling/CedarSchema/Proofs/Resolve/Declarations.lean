import CedarSchema.Proofs.Dict
import CedarSchema.Proofs.Outcome
import CedarSchema.Resolve.Schema

/-
  What a schema declares. The declarations of a schema stand in its items one after the other, each
  in the namespace of its item; merging the blocks of a namespace changes their order and nothing
  else (`scopedDecls_perm`). The symbol table holds what they declare, and it can be made exactly if
  no name is declared twice and no common type bears a reserved name (`needs_ofSchema`).
-/

namespace CedarSchema

/-! ## How a pass ends -/

/-- Whether an error is about the membership of actions, which is looked at last of all. -/
def ResolveError.IsMembership : ResolveError → Prop
  | undefinedAction .. => True
  | actionCycle .. => True
  | _ => False

/-- The computation succeeds exactly if `p` holds, and `P` holds of its value then. It never fails
because of the membership of actions. -/
def Needs {α : Type} (p : Prop) (r : Except ResolveError α) (P : α → Prop) : Prop :=
  Ends (fun e => ¬e.IsMembership ∧ ¬p) r fun a => p ∧ P a

namespace Needs

variable {α β : Type} {p q : Prop} {r : Except ResolveError α} {P P' : α → Prop} {Q : β → Prop}

theorem ok {a : α} (hp : p) (h : P a) : Needs p (.ok a) P := ⟨hp, h⟩

theorem error {e : ResolveError} (he : ¬e.IsMembership) (h : ¬p) : Needs p (.error e) P := ⟨he, h⟩

theorem imp (hr : Needs p r P) (hp : p ↔ q) (hP : ∀ a, p → P a → P' a) : Needs q r P' :=
  Ends.mono hr (fun a h => ⟨hp.1 h.1, hP a h.1 h.2⟩) fun _ h => ⟨h.1, fun hq => h.2 (hp.2 hq)⟩

theorem bind {f : α → Except ResolveError β} (hr : Needs p r P)
    (hf : ∀ a, p → P a → Needs q (f a) Q) : Needs (p ∧ q) (r >>= f) Q :=
  Ends.bind (Ends.impError hr fun _ h => ⟨h.1, fun hpq => h.2 hpq.1⟩) fun a ⟨hp, h⟩ =>
    Ends.mono (hf a hp h) (fun _ h => ⟨⟨hp, h.1⟩, h.2⟩) fun _ h => ⟨h.1, fun hpq => h.2 hpq.2⟩

/-- If what is needed is there, there is a value. -/
theorem exists_ok (hr : Needs p r P) (hp : p) : ∃ a, r = .ok a ∧ P a := by
  cases r with
  | ok a => exact ⟨a, rfl, hr.2⟩
  | error e => exact (hr.2 hp).elim

/-- What comes after the computation cannot fail. -/
theorem thenPure {f : α → β} (hr : Needs p r fun a => Q (f a)) :
    Needs p (r >>= fun a => pure (f a)) Q :=
  Ends.bind hr fun _ h => h

end Needs

/-! ## Declarations -/

/-- All declarations, in the order they stand in. -/
def Schema.declarations (s : Schema) : List (Scoped Decl) :=
  s.items.flatMap fun i => i.decls.map (Scoped.mk i.namespaceName)

theorem Schema.mem_declarations_iff {s : Schema} {d : Scoped Decl} :
    d ∈ s.declarations ↔ ∃ i ∈ s.items, d.ns = i.namespaceName ∧ d.decl ∈ i.decls := by
  rw [declarations, List.mem_flatMap]
  refine exists_congr fun i => and_congr_right fun _ => ?_
  rw [List.mem_map]
  constructor
  · rintro ⟨decl, hdecl, rfl⟩
    exact ⟨rfl, hdecl⟩
  · rintro ⟨hns, hdecl⟩
    exact ⟨d.decl, hdecl, by rw [← hns]⟩

/-- The declarations of a dictionary of namespaces. -/
def declsOf (d : Dict String (List Decl)) : List (Scoped Decl) :=
  d.entries.flatMap fun (ns, decls) => decls.map (Scoped.mk ns)

theorem declsOf_append_perm (d : Dict String (List Decl)) (ns : String) (decls : List Decl) :
    (declsOf (d.append ns decls)).Perm (declsOf d ++ decls.map (Scoped.mk ns)) := by
  obtain ⟨rest, hp, hp'⟩ := insertEntry_perm ns ((d.find? ns).getD [] ++ decls) d.ascending
  let f : String × List Decl → List (Scoped Decl) := fun (ns, decls) => decls.map (Scoped.mk ns)
  have hold : (declsOf d).Perm (((d.find? ns).getD []).map (Scoped.mk ns) ++ rest.flatMap f) := by
    refine (hp.flatMap_right f).trans (.of_eq ?_)
    rw [List.flatMap_append]
    show _ = ((findEntry ns d.entries).getD []).map (Scoped.mk ns) ++ rest.flatMap f
    cases findEntry ns d.entries with
    | none => rfl
    | some old => exact congrArg (· ++ rest.flatMap f) (List.append_nil _)
  have hnew : (declsOf (d.append ns decls)).Perm
      ((((d.find? ns).getD [] ++ decls).map (Scoped.mk ns)) ++ rest.flatMap f) :=
    hp'.flatMap_right f
  refine hnew.trans (.trans ?_ (hold.append_right _).symm)
  rw [List.map_append, List.append_assoc, List.append_assoc]
  exact List.perm_append_comm.append_left _

/-- Merging the blocks of each namespace loses no declaration and adds none. -/
theorem Schema.scopedDecls_perm (s : Schema) : s.scopedDecls.Perm s.declarations := by
  have h (items : List Item) (d : Dict String (List Decl)) :
      (declsOf (items.foldl (fun d item => d.append item.namespaceName item.decls) d)).Perm
        (declsOf d ++ items.flatMap fun i => i.decls.map (Scoped.mk i.namespaceName)) := by
    induction items generalizing d with
    | nil => rw [List.flatMap_nil, List.append_nil]; exact .refl _
    | cons i is ih =>
      refine (ih _).trans ?_
      rw [List.flatMap_cons, ← List.append_assoc]
      exact (declsOf_append_perm d _ _).append_right _
  exact h s.items .empty

/-! ## What a declaration declares -/

namespace Scoped

/-- The entity types that a declaration declares, under their full names. -/
def entityNames (d : Scoped Decl) : List String :=
  match d.decl with
  | .entity e => e.names.map (qualify d.ns)
  | _ => []

/-- The enumerated entity types that a declaration declares. -/
def enumNames (d : Scoped Decl) : List String :=
  match d.decl with
  | .enum e => e.names.map (qualify d.ns)
  | _ => []

/-- The entity types of either kind that a declaration declares. -/
def entityTypeNames (d : Scoped Decl) : List String := d.entityNames ++ d.enumNames

/-- The actions that a declaration declares. -/
def actionUids (d : Scoped Decl) : List EntityUid :=
  match d.decl with
  | .action a => a.names.map (EntityUid.mk (actionType d.ns))
  | _ => []

/-- The common type that a declaration declares, under its full name. -/
def commonTypes (d : Scoped Decl) : List (String × Scoped CommonTypeDecl) :=
  match d.decl with
  | .commonType c => [(qualify d.ns c.name, ⟨d.ns, c⟩)]
  | _ => []

def entities (d : Scoped Decl) : List (Scoped EntityDecl) :=
  match d.decl with
  | .entity e => [⟨d.ns, e⟩]
  | _ => []

def enums (d : Scoped Decl) : List (Scoped EnumDecl) :=
  match d.decl with
  | .enum e => [⟨d.ns, e⟩]
  | _ => []

def actions (d : Scoped Decl) : List (Scoped ActionDecl) :=
  match d.decl with
  | .action a => [⟨d.ns, a⟩]
  | _ => []

end Scoped

namespace Schema

/-- All entity types but the enumerated ones, as often as they are declared. -/
def entityNames (s : Schema) : List String := s.declarations.flatMap Scoped.entityNames

/-- All enumerated entity types, as often as they are declared. -/
def enumNames (s : Schema) : List String := s.declarations.flatMap Scoped.enumNames

/-- All entity types of either kind, as often as they are declared. -/
def entityTypeNames (s : Schema) : List String := s.declarations.flatMap Scoped.entityTypeNames

/-- All actions, as often as they are declared. -/
def actionUids (s : Schema) : List EntityUid := s.declarations.flatMap Scoped.actionUids

/-- All common types, as often as they are declared. -/
def commonTypeNames (s : Schema) : List String :=
  (s.declarations.flatMap Scoped.commonTypes).map Prod.fst

end Schema

/-! ## The symbol table -/

namespace SymbolTable

/-- The table with what a declaration declares, whether or not it is declared already. -/
def add (t : SymbolTable) (d : Scoped Decl) : SymbolTable where
  commonTypes := t.commonTypes ++ d.commonTypes
  entityTypes := t.entityTypes ++ d.entityTypeNames
  actionUids := t.actionUids ++ d.actionUids
  entities := t.entities ++ d.entities
  enums := t.enums ++ d.enums
  actions := t.actions ++ d.actions

section

variable (t : SymbolTable) (ns : String)

theorem add_entity (e : EntityDecl) : t.add ⟨ns, .entity e⟩ =
    { t with
      entityTypes := t.entityTypes ++ e.names.map (qualify ns)
      entities := t.entities ++ [⟨ns, e⟩] } := by
  simp [add, Scoped.commonTypes, Scoped.entityTypeNames, Scoped.entityNames, Scoped.enumNames,
    Scoped.actionUids, Scoped.entities, Scoped.enums, Scoped.actions]

theorem add_enum (e : EnumDecl) : t.add ⟨ns, .enum e⟩ =
    { t with
      entityTypes := t.entityTypes ++ e.names.map (qualify ns)
      enums := t.enums ++ [⟨ns, e⟩] } := by
  simp [add, Scoped.commonTypes, Scoped.entityTypeNames, Scoped.entityNames, Scoped.enumNames,
    Scoped.actionUids, Scoped.entities, Scoped.enums, Scoped.actions]

theorem add_action (a : ActionDecl) : t.add ⟨ns, .action a⟩ =
    { t with
      actionUids := t.actionUids ++ a.names.map (EntityUid.mk (actionType ns))
      actions := t.actions ++ [⟨ns, a⟩] } := by
  simp [add, Scoped.commonTypes, Scoped.entityTypeNames, Scoped.entityNames, Scoped.enumNames,
    Scoped.actionUids, Scoped.entities, Scoped.enums, Scoped.actions]

theorem add_commonType (c : CommonTypeDecl) : t.add ⟨ns, .commonType c⟩ =
    { t with commonTypes := t.commonTypes ++ [(qualify ns c.name, ⟨ns, c⟩)] } := by
  simp [add, Scoped.commonTypes, Scoped.entityTypeNames, Scoped.entityNames, Scoped.enumNames,
    Scoped.actionUids, Scoped.entities, Scoped.enums, Scoped.actions]

end

/-- The table of some declarations. -/
def ofDecls (ds : List (Scoped Decl)) : SymbolTable where
  commonTypes := ds.flatMap Scoped.commonTypes
  entityTypes := ds.flatMap Scoped.entityTypeNames
  actionUids := ds.flatMap Scoped.actionUids
  entities := ds.flatMap Scoped.entities
  enums := ds.flatMap Scoped.enums
  actions := ds.flatMap Scoped.actions

theorem ofDecls_append (ds : List (Scoped Decl)) (d : Scoped Decl) :
    ofDecls (ds ++ [d]) = (ofDecls ds).add d := by
  simp [ofDecls, add]

/-- Nothing is declared twice, and no common type bears a reserved name. -/
structure Distinct (t : SymbolTable) : Prop where
  commonTypes : (t.commonTypes.map Prod.fst).Nodup
  notReserved : ∀ c ∈ t.commonTypes, isReservedTypeName c.2.decl.name = false
  entityTypes : t.entityTypes.Nodup
  actionUids : t.actionUids.Nodup

theorem Distinct.of_ofDecls_append {ds es : List (Scoped Decl)}
    (h : (ofDecls (ds ++ es)).Distinct) : (ofDecls ds).Distinct := by
  obtain ⟨hc, hr, he, ha⟩ := h
  simp only [ofDecls, List.flatMap_append, List.map_append] at hc hr he ha
  exact ⟨(List.nodup_append.1 hc).1, fun c hc => hr c (List.mem_append_left _ hc),
    (List.nodup_append.1 he).1, (List.nodup_append.1 ha).1⟩

/-- Declaring one thing after the other, each under a key that must be new: `K` are the keys
declared so far, `k` is the key of a thing, and `g` declares some keys. -/
theorem needs_foldlM {σ κ α : Type} {f : σ → α → Except ResolveError σ} {K : σ → List κ}
    {k : α → κ} {g : σ → List κ → σ} (hnil : ∀ s, g s [] = s)
    (happend : ∀ s x xs, g (g s [x]) xs = g s (x :: xs)) (hK : ∀ s xs, K (g s xs) = K s ++ xs)
    (hf : ∀ s a, Needs (k a ∉ K s) (f s a) fun s' => s' = g s [k a]) (l : List α) (s : σ)
    (hs : (K s).Nodup) :
    Needs (K s ++ l.map k).Nodup (l.foldlM f s) fun s' => s' = g s (l.map k) := by
  induction l generalizing s with
  | nil =>
    refine Needs.ok ?_ (hnil s).symm
    rwa [List.map_nil, List.append_nil]
  | cons a l ih =>
    have hcons : K s ++ (a :: l).map k = K (g s [k a]) ++ l.map k := by
      rw [hK, List.append_assoc]
      rfl
    have hnew (h : (K s ++ (a :: l).map k).Nodup) : k a ∉ K s :=
      fun hm => (List.nodup_append.1 h).2.2 _ hm _ List.mem_cons_self rfl
    rw [List.foldlM_cons]
    refine ((hf s a).bind fun s' hfresh hs' => ?_).imp
      ⟨And.right, fun h => ⟨hnew h, h⟩⟩ fun _ _ => id
    have hs : (K (g s [k a])).Nodup := by
      rw [hK, List.nodup_append]
      exact ⟨hs, by simp, by simpa using fun b hb => ne_of_mem_of_not_mem hb hfresh⟩
    rw [hs', hcons, List.map_cons, ← happend s (k a) (l.map k)]
    exact ih _ hs

theorem needs_declareEntityType (t : SymbolTable) (name : String) :
    Needs (name ∉ t.entityTypes) (t.declareEntityType name) fun t' =>
      t' = { t with entityTypes := t.entityTypes ++ [name] } := by
  rw [declareEntityType]
  split
  · rename_i h
    exact Needs.error id fun hn => hn (List.contains_iff_mem.1 h)
  · rename_i h
    exact Needs.ok (fun hm => h (List.contains_iff_mem.2 hm)) rfl

theorem needs_declareAction (t : SymbolTable) (uid : EntityUid) :
    Needs (uid ∉ t.actionUids) (t.declareAction uid) fun t' =>
      t' = { t with actionUids := t.actionUids ++ [uid] } := by
  rw [declareAction]
  split
  · rename_i h
    exact Needs.error id fun hn => hn (List.contains_iff_mem.1 h)
  · rename_i h
    exact Needs.ok (fun hm => h (List.contains_iff_mem.2 hm)) rfl

theorem hasCommonType_iff {t : SymbolTable} {name : String} :
    t.hasCommonType name = true ↔ name ∈ t.commonTypes.map Prod.fst := by
  rw [hasCommonType, commonType?, List.lookup_isSome_iff]
  simp

theorem needs_declareCommonType (t : SymbolTable) (name : String) (c : Scoped CommonTypeDecl) :
    Needs (name ∉ t.commonTypes.map Prod.fst) (t.declareCommonType name c) fun t' =>
      t' = { t with commonTypes := t.commonTypes ++ [(name, c)] } := by
  rw [declareCommonType]
  split
  · rename_i h
    exact Needs.error id fun hn => hn (hasCommonType_iff.1 h)
  · rename_i h
    exact Needs.ok (fun hm => h (hasCommonType_iff.2 hm)) rfl

theorem needs_declareEntityTypes {t : SymbolTable} (ht : t.entityTypes.Nodup) (ns : String)
    (names : List String) :
    Needs (t.entityTypes ++ names.map (qualify ns)).Nodup
      (names.foldlM (fun t n => t.declareEntityType (qualify ns n)) t) fun t' =>
        t' = { t with entityTypes := t.entityTypes ++ names.map (qualify ns) } :=
  needs_foldlM (g := fun t names => { t with entityTypes := t.entityTypes ++ names })
    (K := entityTypes) (by simp) (by simp) (fun _ _ => rfl)
    (fun t n => needs_declareEntityType t (qualify ns n)) names t ht

theorem needs_declareActions {t : SymbolTable} (ht : t.actionUids.Nodup) (ns : String)
    (names : List String) :
    Needs (t.actionUids ++ names.map (EntityUid.mk (actionType ns))).Nodup
      (names.foldlM (fun t n => t.declareAction ⟨actionType ns, n⟩) t) fun t' =>
        t' = { t with actionUids := t.actionUids ++ names.map (EntityUid.mk (actionType ns)) } :=
  needs_foldlM (g := fun t uids => { t with actionUids := t.actionUids ++ uids })
    (K := actionUids) (by simp) (by simp) (fun _ _ => rfl)
    (fun t n => needs_declareAction t (EntityUid.mk (actionType ns) n)) names t ht

/-- A declaration is declared exactly if the table stays distinct. -/
theorem needs_declare {t : SymbolTable} (ht : t.Distinct) (d : Scoped Decl) :
    Needs (t.add d).Distinct (t.declare d.ns d.decl) fun t' => t' = t.add d := by
  obtain ⟨ns, d⟩ := d
  cases d with
  | entity e =>
    rw [add_entity]
    refine Needs.thenPure ((needs_declareEntityTypes ht.entityTypes ns e.names).imp ?_ ?_)
    · exact ⟨fun h => { ht with entityTypes := h }, Distinct.entityTypes⟩
    · rintro t' - rfl
      rfl
  | enum e =>
    rw [add_enum]
    refine Needs.thenPure ((needs_declareEntityTypes ht.entityTypes ns e.names).imp ?_ ?_)
    · exact ⟨fun h => { ht with entityTypes := h }, Distinct.entityTypes⟩
    · rintro t' - rfl
      rfl
  | action a =>
    rw [add_action]
    refine Needs.thenPure ((needs_declareActions ht.actionUids ns a.names).imp ?_ ?_)
    · exact ⟨fun h => { ht with actionUids := h }, Distinct.actionUids⟩
    · rintro t' - rfl
      rfl
  | commonType c =>
    rw [add_commonType, declare]
    split
    · rename_i hr
      refine Needs.error id fun h => ?_
      have hc := h.notReserved _ (List.mem_append_right _ List.mem_cons_self)
      rw [hr] at hc
      cases hc
    · rename_i hr
      have hc := needs_declareCommonType t (qualify ns c.name) ⟨ns, c⟩
      refine hc.imp ⟨fun hnew => ?_, fun h hm => ?_⟩ fun _ _ => id
      · refine { ht with commonTypes := ?_, notReserved := ?_ }
        · rw [List.map_append, List.nodup_append]
          exact ⟨ht.commonTypes, by simp, by simpa using fun b hb => ne_of_mem_of_not_mem hb hnew⟩
        · refine List.forall_mem_append.2 ⟨ht.notReserved, List.forall_mem_singleton.2 ?_⟩
          exact Bool.eq_false_iff.2 hr
      · have hnodup := h.commonTypes
        rw [List.map_append, List.nodup_append] at hnodup
        exact hnodup.2.2 _ hm _ List.mem_cons_self rfl

/-- Some declarations are declared exactly if they are distinct. -/
theorem needs_ofDecls (ds es : List (Scoped Decl)) (h : (ofDecls ds).Distinct) :
    Needs (ofDecls (ds ++ es)).Distinct (es.foldlM (fun t d => t.declare d.ns d.decl) (ofDecls ds))
      fun t => t = ofDecls (ds ++ es) := by
  induction es generalizing ds with
  | nil =>
    rw [List.append_nil]
    exact Needs.ok h rfl
  | cons d es ih =>
    rw [List.foldlM_cons, List.append_cons]
    have hd := needs_declare h d
    rw [← ofDecls_append] at hd
    refine (hd.bind fun t hdistinct ht => ?_).imp
      ⟨And.right, fun h => ⟨h.of_ofDecls_append, h⟩⟩ fun _ _ => id
    rw [ht]
    exact ih _ hdistinct

end SymbolTable

/-- The symbol table of a schema, whether or not all names in it are distinct. -/
def Schema.table (s : Schema) : SymbolTable := .ofDecls s.scopedDecls

/-- A schema has a symbol table exactly if its names are distinct. -/
theorem SymbolTable.needs_ofSchema (s : Schema) :
    Needs s.table.Distinct (ofSchema s) fun t => t = s.table :=
  needs_ofDecls [] s.scopedDecls
    ⟨by simp [ofDecls], by simp [ofDecls], by simp [ofDecls], by simp [ofDecls]⟩

namespace Schema

variable {s : Schema}

theorem mem_table_commonTypes {c : String × Scoped CommonTypeDecl} :
    c ∈ s.table.commonTypes ↔
      c.1 = qualify c.2.ns c.2.decl.name ∧ ⟨c.2.ns, .commonType c.2.decl⟩ ∈ s.declarations := by
  refine (s.scopedDecls_perm.flatMap_right Scoped.commonTypes).mem_iff.trans ?_
  rw [List.mem_flatMap]
  constructor
  · rintro ⟨⟨ns, d⟩, hd, hc⟩
    cases d <;> cases hc
    · exact ⟨rfl, hd⟩
    · contradiction
  · obtain ⟨name, ns, c⟩ := c
    rintro ⟨hname, hd⟩
    exact ⟨_, hd, List.mem_singleton.2 (congrArg (·, _) hname)⟩

theorem mem_table_entities {d : Scoped EntityDecl} :
    d ∈ s.table.entities ↔ ⟨d.ns, .entity d.decl⟩ ∈ s.declarations := by
  refine (s.scopedDecls_perm.flatMap_right Scoped.entities).mem_iff.trans ?_
  rw [List.mem_flatMap]
  constructor
  · rintro ⟨⟨ns, d⟩, hd, hx⟩
    cases d <;> cases hx
    · exact hd
    · contradiction
  · exact fun hd => ⟨_, hd, List.mem_singleton.2 rfl⟩

theorem mem_table_actions {d : Scoped ActionDecl} :
    d ∈ s.table.actions ↔ ⟨d.ns, .action d.decl⟩ ∈ s.declarations := by
  refine (s.scopedDecls_perm.flatMap_right Scoped.actions).mem_iff.trans ?_
  rw [List.mem_flatMap]
  constructor
  · rintro ⟨⟨ns, d⟩, hd, hx⟩
    cases d <;> cases hx
    · exact hd
    · contradiction
  · exact fun hd => ⟨_, hd, List.mem_singleton.2 rfl⟩

theorem distinct_table_iff : s.table.Distinct ↔
    s.commonTypeNames.Nodup ∧
      (∀ ns c, ⟨ns, .commonType c⟩ ∈ s.declarations → isReservedTypeName c.name = false) ∧
      s.entityTypeNames.Nodup ∧ s.actionUids.Nodup := by
  have hperm := s.scopedDecls_perm
  have hcommon := ((hperm.flatMap_right Scoped.commonTypes).map Prod.fst).nodup_iff
  have hentity := (hperm.flatMap_right Scoped.entityTypeNames).nodup_iff
  have haction := (hperm.flatMap_right Scoped.actionUids).nodup_iff
  constructor
  · rintro ⟨hc, hr, he, ha⟩
    refine ⟨hcommon.1 hc, fun ns c h => ?_, hentity.1 he, haction.1 ha⟩
    exact hr (qualify ns c.name, ⟨ns, c⟩) (mem_table_commonTypes.2 ⟨rfl, h⟩)
  · rintro ⟨hc, hr, he, ha⟩
    refine ⟨hcommon.2 hc, fun c h => ?_, hentity.2 he, haction.2 ha⟩
    exact hr _ _ (mem_table_commonTypes.1 h).2

end Schema

end CedarSchema
