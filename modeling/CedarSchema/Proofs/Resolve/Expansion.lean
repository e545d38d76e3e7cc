import CedarSchema.Proofs.Resolve.Declarations
import CedarSchema.Proofs.Resolve.Denotation

/-
  Expanding common types. The expansions kept are those of declared common types and what these
  stand for (`Sound`); this is all that resolving a type has to know about earlier work, and it
  leaves it so. A type resolves to what it stands for. If it does not resolve, then some name below
  it has no binding or some record repeats an attribute, or the common types have the cycle that
  the error shows (`blames_resolveType`).
-/

namespace CedarSchema

namespace SymbolTable

variable {t : SymbolTable}

/-! ## Who is to blame -/

/-- The body of every common type is well bound in the namespace that declares it. -/
def BindsBodies (t : SymbolTable) : Prop :=
  ∀ name d, t.commonType? name = some d → t.Binds d.ns d.decl.type

/-- An error that shows a cycle of common types, or one of another kind and `p` does not hold. -/
def Blames (t : SymbolTable) (p : Prop) : ResolveError → Prop
  | .commonTypeCycle cycle => IsCycle t.Refers cycle
  | .undefinedAction .. => False
  | .actionCycle _ => False
  | _ => ¬p

theorem Blames.mono {p q : Prop} {e : ResolveError} (h : t.Blames p e) (hp : q → p) :
    t.Blames q e := by
  cases e with
  | commonTypeCycle cycle => exact h
  | undefinedAction action parent => exact h
  | actionCycle cycle => exact h
  | _ => exact fun hq => h (hp hq)

/-- With neither a cycle nor another fault nothing is to blame. -/
theorem needs_of_blames {α : Type} {p : Prop} {r : Except ResolveError α} {P : α → Prop}
    (h : Ends (t.Blames p) r P) (hP : ∀ a, P a → Acyclic t.Refers ∧ p) :
    Needs (Acyclic t.Refers ∧ p) r P := by
  refine Ends.mono h (fun a ha => ⟨hP a ha, ha⟩) fun e he => ?_
  cases e with
  | commonTypeCycle cycle => exact ⟨id, fun hp => IsCycle.not_acyclic he hp.1⟩
  | undefinedAction action parent => exact he.elim
  | actionCycle cycle => exact he.elim
  | _ => exact ⟨id, fun hp => he hp.2⟩

section

variable {α : Type} {p q : Prop} {r : Except ResolveError α} {P : α → Prop}

/-- What is to blame under the condition `c` is to blame under any that implies it. -/
theorem blames_imp {c d : Prop} (h : Ends (fun e => c → t.Blames p e) r P) (hc : d → c)
    (hp : q → p) : Ends (fun e => d → t.Blames q e) r P :=
  h.impError fun _ he hd => (he (hc hd)).mono hp

/-- A lookup fails only if there is nothing to find. -/
theorem blames_of_isUndefined (h : Ends ResolveError.IsUndefined r P) :
    Ends (t.Blames (∃ a, r = .ok a)) r fun a => r = .ok a := by
  cases r with
  | ok a => exact rfl
  | error e =>
    have he : ¬∃ a, (Except.error e : Except ResolveError α) = .ok a := by simp
    cases e with
    | undefinedType name ns => exact he
    | undefinedBuiltin name => exact he
    | _ => exact h.elim

end

/-! ## Kept expansions -/

/-- The common type `name` is declared and stands for `type`. -/
def Stands (t : SymbolTable) (name : String) (type : ResolvedType) : Prop :=
  ∃ d, t.commonType? name = some d ∧ t.Denotes d.ns d.decl.type type

/-- All that is kept is right. -/
def Sound (t : SymbolTable) (expanded : Expanded) : Prop :=
  ∀ name type, expanded.find? name = some type → t.Stands name type

theorem sound_empty : t.Sound .empty := fun _ _ h => nomatch h

theorem Sound.insert {expanded : Expanded} {name : String} {type : ResolvedType}
    (h : t.Sound expanded) (hn : t.Stands name type) : t.Sound (expanded.insert name type) := by
  intro name' type' h'
  by_cases heq : name' = name
  · subst heq
    rw [Dict.find?_insert_self] at h'
    cases h'
    exact hn
  · rw [Dict.find?_insert_of_ne _ heq] at h'
    exact h name' type' h'

/-! ## Resolving a type -/

/-- Expansion without the facts that make it end. -/
theorem expand_eq (t : SymbolTable) (chain : List String) (name : String) (expanded : Expanded) :
    t.expand chain name expanded =
      match expanded.find? name with
      | some type => .ok (type, expanded)
      | none =>
        if chain.contains name then .error (.commonTypeCycle (cycleFrom name chain))
        else
          match t.commonType? name with
          | none => .error (.undefinedType name "")
          | some d => (fun x => (x.1, x.2.insert name x.1)) <$>
            t.resolveType (chain ++ [name]) d.ns d.decl.type expanded := by
  rw [expand]
  cases expanded.find? name with
  | some type => rfl
  | none =>
    dsimp only
    split
    · rfl
    · split
      · rename_i h
        simp only [h]
      · rename_i h
        simp only [h]
        rfl

mutual

/-- Whatever the chain is, a type resolves to what it stands for; if the chain leads to all that the
type mentions, then errors are right as well. -/
theorem blames_resolveType (chain : List String) (ns : String) : (type : TypeExpr) →
    (expanded : Expanded) → t.Sound expanded →
      Ends (fun e => (∀ name, t.Mentions ns name type → Leads t.Refers chain name) →
          t.Blames (t.BindsBodies ∧ t.Binds ns type) e)
        (t.resolveType chain ns type expanded) fun x => t.Denotes ns type x.1 ∧ t.Sound x.2
  | .path p, expanded, hexpanded => by
    have hp := blames_of_isUndefined (t := t) (ends_lookupType t ns p)
    rw [resolveType]
    split
    · rename_i e he
      exact fun _ => Blames.mono (hp.of_error he) And.right
    · rename_i b hb
      exact ⟨.builtin hb, hexpanded⟩
    · rename_i name hname
      exact ⟨.entityType hname, hexpanded⟩
    · rename_i name hname
      have hexpand := blames_expand chain name expanded hexpanded
        ((ends_lookupType t ns p).of_ok hname)
      refine (blames_imp hexpand (fun h => h name hname) And.left).imp ?_
      rintro x ⟨⟨d, hd, h⟩, hx⟩
      exact ⟨.commonType hname hd h, hx⟩
  | .entity p, expanded, hexpanded => by
    rw [resolveType]
    have hp := blames_of_isUndefined (t := t) (ends_lookupEntityType t ns p)
    refine Ends.bind (hp.impError fun _ he _ => he.mono And.right) fun name hname => ?_
    exact ⟨.entity hname, hexpanded⟩
  | .set element, expanded, hexpanded => by
    rw [resolveType]
    have helement := blames_resolveType chain ns element expanded hexpanded
    refine Ends.bind helement fun x ⟨htype, hx⟩ => ?_
    exact ⟨.set htype, hx⟩
  | .record r, expanded, hexpanded => by
    rw [resolveType.eq_def]
    have hrecord := blames_resolveRecord chain ns r expanded hexpanded
    refine Ends.bind hrecord fun x ⟨hfields, hx⟩ => ?_
    exact ⟨.record hfields, hx⟩
termination_by type => (t.unvisited chain, sizeOf type)

theorem blames_resolveRecord (chain : List String) (ns : String) : (r : Record TypeExpr) →
    (expanded : Expanded) → t.Sound expanded →
      Ends (fun e => (∀ name, t.MentionsIn ns name r → Leads t.Refers chain name) →
          t.Blames (t.BindsBodies ∧ t.BindsRecord ns r) e)
        (t.resolveFields chain ns .empty r.attributes expanded)
        fun x => t.DenotesRecord ns r x.1.entries ∧ t.Sound x.2
  | ⟨attributes, comments⟩, expanded, hexpanded => by
    have hfields := blames_resolveFields chain ns .empty attributes expanded hexpanded
    rw [Dict.keys_empty, List.append_nil] at hfields
    refine hfields.imp ?_
    rintro ⟨_, x⟩ ⟨⟨fields, hfields, rfl, hnodup⟩, hx⟩
    exact ⟨.mk hfields hnodup, hx⟩
termination_by r => (t.unvisited chain, sizeOf r)

theorem blames_resolveFields (chain : List String) (ns : String)
    (fields : Dict String (Field ResolvedType)) : (attributes : List (Attribute TypeExpr)) →
    (expanded : Expanded) → t.Sound expanded →
      Ends (fun e => (∀ name, t.MentionsAny ns name attributes → Leads t.Refers chain name) →
          t.Blames (t.BindsBodies ∧ t.BindsAll ns attributes ∧
            (attributes.map Attribute.name ++ fields.keys).Nodup) e)
        (t.resolveFields chain ns fields attributes expanded)
        fun x => (∃ added, t.DenotesAll ns attributes added ∧
          x.1 = added.foldl (fun d e => d.insert e.1 e.2) fields ∧
          (attributes.map Attribute.name ++ fields.keys).Nodup) ∧ t.Sound x.2
  | [], expanded, hexpanded => by
    rw [resolveFields]
    exact ⟨⟨[], .nil ns, rfl, fields.nodup_keys⟩, hexpanded⟩
  | ⟨name, type, required, annotations, comments⟩ :: rest, expanded, hexpanded => by
    rw [resolveFields]
    have htype := blames_resolveType chain ns type expanded hexpanded
    refine Ends.bind (blames_imp htype (fun h n hn => h n (.inl hn)) fun h => ⟨h.1, h.2.1.1⟩) ?_
    rintro ⟨type', expanded⟩ ⟨htype, hexpanded⟩
    dsimp only
    split
    · rename_i hmem
      refine Ends.bind (Ends.throw fun _ h => ?_) fun _ h => h
      have hnew := (List.nodup_cons.1 h.2.2).1
      exact hnew (List.mem_append_right _ (Dict.contains_iff.1 hmem))
    · rename_i hmem
      have hnew : name ∉ fields.keys := fun h => hmem (Dict.contains_iff.2 h)
      have hrest (f : Field ResolvedType) := blames_resolveFields chain ns (fields.insert name f)
        rest expanded hexpanded
      simp only [Dict.nodup_append_keys_insert _ hnew] at hrest
      refine (blames_imp (hrest _) (fun h n hn => h n (.inr hn))
        fun h => ⟨h.1, h.2.1.2, h.2.2⟩).imp ?_
      rintro x ⟨⟨added, hadded, hx, hnodup⟩, hsound⟩
      exact ⟨⟨_, .cons htype hadded, hx, hnodup⟩, hsound⟩
termination_by attributes => (t.unvisited chain, sizeOf attributes)

theorem blames_expand (chain : List String) (name : String) (expanded : Expanded)
    (hexpanded : t.Sound expanded) (hname : ∃ d, t.commonType? name = some d) :
    Ends (fun e => Leads t.Refers chain name → t.Blames t.BindsBodies e)
      (t.expand chain name expanded) fun x => t.Stands name x.1 ∧ t.Sound x.2 := by
  rw [expand_eq]
  split
  · rename_i type htype
    exact ⟨hexpanded name type htype, hexpanded⟩
  · split
    · rename_i hn
      exact fun hchain => hchain.isCycle (List.contains_iff_mem.1 hn)
    · rename_i hn
      obtain ⟨d, hd⟩ := hname
      -- The chain grows by a declared name, which is what makes the recursion end.
      have hlt := unvisited_append_lt hd (Bool.eq_false_iff.2 hn)
      have hbody := blames_resolveType (chain ++ [name]) d.ns d.decl.type expanded hexpanded
      have hchain (h : Leads t.Refers chain name) (b : String)
          (hb : t.Mentions d.ns b d.decl.type) : Leads t.Refers (chain ++ [name]) b :=
        h.append (fun h => hn (List.contains_iff_mem.2 h)) ⟨d, hd, hb⟩
      rw [hd]
      refine Ends.map ((blames_imp hbody hchain fun h => ⟨h, h name d hd⟩).imp ?_)
      rintro ⟨type, expanded⟩ ⟨htype, hexpanded⟩
      exact ⟨⟨d, hd, htype⟩, hexpanded.insert ⟨d, hd, htype⟩⟩
termination_by (t.unvisited chain, 0)

end

/-! ## All common types -/

theorem commonType?_of_mem {name : String} (h : name ∈ t.commonTypes.map Prod.fst) :
    ∃ d, t.commonType? name = some d :=
  Option.isSome_iff_exists.1 (hasCommonType_iff.2 h)

theorem blames_expandAll (names : List String) (expanded : Expanded) (hexpanded : t.Sound expanded)
    (hnames : ∀ n ∈ names, ∃ d, t.commonType? n = some d) :
    Ends (t.Blames t.BindsBodies) (t.expandAll names expanded) fun expanded =>
      t.Sound expanded ∧ ∀ n ∈ names, ∃ type, t.Stands n type := by
  unfold expandAll
  induction names generalizing expanded with
  | nil => exact ⟨hexpanded, nofun⟩
  | cons n names ih =>
    obtain ⟨hn, hnames⟩ := List.forall_mem_cons.1 hnames
    rw [List.foldlM_cons]
    have hexpand := (blames_expand [] n expanded hexpanded hn).impError fun _ he => he (leads_nil n)
    have hkept : Ends (t.Blames t.BindsBodies) (Prod.snd <$> t.expand [] n expanded) fun x =>
        t.Sound x ∧ ∃ type, t.Stands n type :=
      Ends.map (hexpand.imp fun x hx => ⟨hx.2, x.1, hx.1⟩)
    refine Ends.bind hkept fun expanded ⟨hexpanded, hstands⟩ => ?_
    refine (ih expanded hexpanded hnames).imp fun expanded h => ⟨h.1, ?_⟩
    exact List.forall_mem_cons.2 ⟨hstands, h.2⟩

/-- The common types are well bound and none leads back to itself, and what is kept is right. -/
structure Ready (t : SymbolTable) (expanded : Expanded) : Prop where
  acyclic : Acyclic t.Refers
  bodies : t.BindsBodies
  sound : t.Sound expanded

/-- The common types expand exactly if they are well bound and none leads back to itself. -/
theorem needs_expandCommonTypes (t : SymbolTable) :
    Needs (Acyclic t.Refers ∧ t.BindsBodies) t.expandCommonTypes t.Ready := by
  have h := blames_expandAll (t.commonTypes.map Prod.fst) .empty (sound_empty (t := t))
    fun _ => commonType?_of_mem
  have hready : Ends (t.Blames t.BindsBodies) t.expandCommonTypes t.Ready := by
    refine h.imp fun expanded ⟨hexpanded, hall⟩ => ?_
    have hdenotes (name : String) (d : Scoped CommonTypeDecl) (hd : t.commonType? name = some d) :
        ∃ type, t.Denotes d.ns d.decl.type type := by
      obtain ⟨type, d', hd', htype⟩ := hall name (mem_of_commonType? hd)
      cases hd.symm.trans hd'
      exact ⟨type, htype⟩
    refine ⟨acyclic_of_denotes hdenotes, fun name d hd => ?_, hexpanded⟩
    obtain ⟨type, htype⟩ := hdenotes name d hd
    exact htype.binds
  exact needs_of_blames hready fun _ h => ⟨h.acyclic, h.bodies⟩

section

variable {ns : String} {expanded : Expanded}

theorem Ready.needs {α : Type} {p : Prop} {r : Except ResolveError (α × Expanded)}
    {P : α → Prop} (h : t.Ready expanded)
    (hr : Ends (t.Blames (t.BindsBodies ∧ p)) r fun x => P x.1 ∧ t.Sound x.2)
    (hP : ∀ a, P a → p) : Needs p r fun x => P x.1 ∧ t.Ready x.2 := by
  obtain ⟨hacyclic, hbodies, -⟩ := h
  refine (needs_of_blames hr fun x hx => ⟨hacyclic, hbodies, hP _ hx.1⟩).imp ?_ fun x _ hx => ?_
  · exact ⟨fun h => h.2.2, fun h => ⟨hacyclic, hbodies, h⟩⟩
  · exact ⟨hx.1, hacyclic, hbodies, hx.2⟩

/-- Once the common types are known to be all right, a type resolves exactly if it is well bound. -/
theorem Ready.needs_resolveType (h : t.Ready expanded) (type : TypeExpr) :
    Needs (t.Binds ns type) (t.resolveType [] ns type expanded) fun x =>
      t.Denotes ns type x.1 ∧ t.Ready x.2 :=
  h.needs ((blames_resolveType [] ns type expanded h.sound).impError
    fun _ he => he fun name _ => leads_nil name) fun _ => Denotes.binds

theorem Ready.needs_resolveRecord (h : t.Ready expanded) (r : Record TypeExpr) :
    Needs (t.BindsRecord ns r) (t.resolveFields [] ns .empty r.attributes expanded) fun x =>
      t.DenotesRecord ns r x.1.entries ∧ t.Ready x.2 :=
  h.needs (P := fun d : Dict String (Field ResolvedType) => t.DenotesRecord ns r d.entries)
    ((blames_resolveRecord [] ns r expanded h.sound).impError
      fun _ he => he fun name _ => leads_nil name) fun _ => DenotesRecord.binds

end

end SymbolTable

end CedarSchema
