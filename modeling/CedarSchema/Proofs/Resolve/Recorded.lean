import CedarSchema.Proofs.Resolve.Expansion
import CedarSchema.Proofs.Resolve.Membership
import Mathlib

/-
  The searches on limited fuel, with a record of their chains. Every call costs one unit of fuel,
  and each time a key joins a chain the new chain is put on record. A call needs no more fuel than
  what the keys off the chain can still cost, each as much as is written below it, and what is left
  to do on the type or the list of parents at hand. With that much fuel a search ends as the search
  without fuel does, and every chain on record holds keys only and none twice
  (`follows_resolveType`, `follows_visitAll`).
-/

namespace CedarSchema

/-! ## Chains -/

/-- A chain of keys on which none comes twice. -/
structure SimpleChain {κ : Type} (keys chain : List κ) : Prop where
  nodup : chain.Nodup
  subset : chain ⊆ keys

section

variable {κ α : Type} {keys chain : List κ}

theorem simpleChain_nil (keys : List κ) : SimpleChain keys [] := ⟨.nil, List.nil_subset keys⟩

theorem SimpleChain.append {k : κ} (h : SimpleChain keys chain) (hk : k ∈ keys)
    (hnew : k ∉ chain) : SimpleChain keys (chain ++ [k]) := by
  refine ⟨List.nodup_append.2 ⟨h.nodup, List.nodup_singleton k, ?_⟩, ?_⟩
  · rintro a ha b hb rfl
    exact hnew (List.mem_singleton.1 hb ▸ ha)
  · exact List.append_subset.2 ⟨h.subset, List.cons_subset.2 ⟨hk, List.nil_subset keys⟩⟩

theorem SimpleChain.length_le (h : SimpleChain keys chain) : chain.length ≤ keys.length :=
  (h.nodup.subperm h.subset).length_le

/-- What the entries off the chain can still cost. -/
def costOutside [BEq κ] (cost : α → Nat) (entries : List (κ × α)) (chain : List κ) : Nat :=
  (entries.map fun e => if chain.contains e.1 then 0 else cost e.2).sum

variable [BEq κ]

theorem costOutside_append_le (cost : α → Nat) (entries : List (κ × α)) (chain : List κ) (k : κ) :
    costOutside cost entries (chain ++ [k]) ≤ costOutside cost entries chain := by
  refine List.sum_le_sum fun e _ => ?_
  split
  · exact Nat.zero_le _
  · rename_i h
    rw [if_neg]
    simpa using contains_of_append (by simpa using h)

/-- What joins the chain is paid for out of what the entries off the chain can cost. -/
theorem costOutside_append_add_le [LawfulBEq κ] {cost : α → Nat} {entries : List (κ × α)} {k : κ}
    {a : α} (ha : (k, a) ∈ entries) (hk : k ∉ chain) :
    costOutside cost entries (chain ++ [k]) + cost a ≤ costOutside cost entries chain := by
  obtain ⟨front, behind, rfl⟩ := List.append_of_mem ha
  have hfront := costOutside_append_le cost front chain k
  have hbehind := costOutside_append_le cost behind chain k
  have hin : (chain ++ [k]).contains k = true := by simp
  have hout : chain.contains k = false := by simpa using hk
  simp only [costOutside, List.map_append, List.sum_append, List.map_cons, List.sum_cons, hin, hout,
    if_true, Bool.false_eq_true, if_false] at hfront hbehind ⊢
  omega

end

/-! ## Recorded computations -/

/-- A chain of common types that are being expanded or of actions that are being visited. -/
inductive Trail
  | commonTypes (chain : List String)
  | actions (chain : List EntityUid)
  deriving DecidableEq, Repr

/-- A computation on limited fuel, with the chains that it has built. -/
structure Recorded (α : Type) where
  trails : List Trail
  /-- Nothing if the fuel ran out. -/
  outcome : Option (Except ResolveError α)

namespace Recorded

variable {α β : Type}

def outOfFuel : Recorded α := ⟨[], none⟩

def ofExcept (r : Except ResolveError α) : Recorded α := ⟨[], some r⟩

/-- Puts the chain on record, then computes. -/
def entering (trail : Trail) (x : Recorded α) : Recorded α := ⟨trail :: x.trails, x.outcome⟩

protected def bind (x : Recorded α) (f : α → Recorded β) : Recorded β :=
  match x.outcome with
  | some (.ok a) => ⟨x.trails ++ (f a).trails, (f a).outcome⟩
  | some (.error e) => ⟨x.trails, some (.error e)⟩
  | none => ⟨x.trails, none⟩

instance : Monad Recorded where
  pure a := ofExcept (.ok a)
  bind := Recorded.bind

/-- The fuel suffices for the computation to end as `r` does, and all chains on record have `P`. -/
structure Follows (P : Trail → Prop) (x : Recorded α) (r : Except ResolveError α) : Prop where
  outcome : x.outcome = some r
  trails : ∀ trail ∈ x.trails, P trail

namespace Follows

variable {P : Trail → Prop} {x : Recorded α} {r : Except ResolveError α}

theorem ofExcept (r : Except ResolveError α) : Follows P (.ofExcept r) r := ⟨rfl, nofun⟩

theorem pure (a : α) : Follows P (Pure.pure a) (.ok a) := ofExcept (.ok a)

theorem entering {trail : Trail} (h : P trail) (hx : Follows P x r) :
    Follows P (.entering trail x) r :=
  ⟨hx.outcome, List.forall_mem_cons.2 ⟨h, hx.trails⟩⟩

theorem bind {f : α → Recorded β} {g : α → Except ResolveError β} (hx : Follows P x r)
    (hf : ∀ a, r = .ok a → Follows P (f a) (g a)) : Follows P (x >>= f) (r >>= g) := by
  obtain ⟨trails, outcome⟩ := x
  obtain ⟨rfl, htrails⟩ := hx
  cases r with
  | error e => exact ⟨rfl, htrails⟩
  | ok a =>
    have ha := hf a rfl
    exact ⟨ha.outcome, List.forall_mem_append.2 ⟨htrails, ha.trails⟩⟩

theorem map {f : α → β} (hx : Follows P x r) : Follows P (f <$> x) (f <$> r) := by
  have h := hx.bind (f := Pure.pure ∘ f) (g := fun a => .ok (f a)) fun a _ => pure (f a)
  cases r with
  | ok a => exact h
  | error e => exact h

end Follows

/-! ## Expanding common types -/

mutual

/-- How many calls the type takes, one below another and the bodies of common types apart. A path
may take one more, for the common type it is bound to. -/
def typeCalls : TypeExpr → Nat
  | .path _ => 2
  | .entity _ => 1
  | .set element => typeCalls element + 1
  | .record r => recordCalls r + 1

def recordCalls : Record TypeExpr → Nat
  | ⟨attributes, _⟩ => attributesCalls attributes

def attributesCalls : List (Attribute TypeExpr) → Nat
  | [] => 1
  | ⟨_, type, _, _, _⟩ :: rest => typeCalls type + attributesCalls rest + 1

end

/-- The fuel for the common types that are not on the chain. -/
def typeFuel (t : SymbolTable) (chain : List String) : Nat :=
  costOutside (fun d : Scoped CommonTypeDecl => typeCalls d.decl.type) t.commonTypes chain

mutual

/-- The type that `type` stands for, as without fuel; each call costs one unit. -/
def resolveType (t : SymbolTable) (fuel : Nat) (chain : List String) (ns : String)
    (type : TypeExpr) (expanded : Expanded) : Recorded (ResolvedType × Expanded) :=
  match fuel with
  | 0 => .outOfFuel
  | fuel + 1 =>
    match type with
    | .path p =>
      match t.lookupType ns p with
      | .error e => .ofExcept (.error e)
      | .ok (.builtin b) => pure (b, expanded)
      | .ok (.entityType name) => pure (.entity name, expanded)
      | .ok (.commonType name) => expand t fuel chain name expanded
    | .entity p => do
      let name ← .ofExcept (t.lookupEntityType ns p)
      return (.entity name, expanded)
    | .set element => do
      let (element, expanded) ← resolveType t fuel chain ns element expanded
      return (.set element, expanded)
    | .record ⟨attributes, _⟩ => do
      let (fields, expanded) ← resolveFields t fuel chain ns .empty attributes expanded
      return (.record fields.entries, expanded)
termination_by structural fuel

def resolveFields (t : SymbolTable) (fuel : Nat) (chain : List String) (ns : String)
    (fields : Dict String (Field ResolvedType)) (attributes : List (Attribute TypeExpr))
    (expanded : Expanded) : Recorded (Dict String (Field ResolvedType) × Expanded) :=
  match fuel with
  | 0 => .outOfFuel
  | fuel + 1 =>
    match attributes with
    | [] => pure (fields, expanded)
    | ⟨name, type, required, annotations, _⟩ :: rest => do
      let (type, expanded) ← resolveType t fuel chain ns type expanded
      if fields.contains name then .ofExcept (.error (.duplicate .field name))
      else
        let fields := fields.insert name ⟨type, required, annotationDict annotations⟩
        resolveFields t fuel chain ns fields rest expanded
termination_by structural fuel

def expand (t : SymbolTable) (fuel : Nat) (chain : List String) (name : String)
    (expanded : Expanded) : Recorded (ResolvedType × Expanded) :=
  match fuel with
  | 0 => .outOfFuel
  | fuel + 1 =>
    match expanded.find? name with
    | some type => pure (type, expanded)
    | none =>
      if chain.contains name then .ofExcept (.error (.commonTypeCycle (cycleFrom name chain)))
      else
        match t.commonType? name with
        | none => .ofExcept (.error (.undefinedType name ""))
        | some d => .entering (.commonTypes (chain ++ [name]))
          ((fun x => (x.1, x.2.insert name x.1)) <$>
            resolveType t fuel (chain ++ [name]) d.ns d.decl.type expanded)
termination_by structural fuel

end

/-- `P` holds of every simple chain of common types. -/
def AllowsTypes (P : Trail → Prop) (t : SymbolTable) : Prop :=
  ∀ chain, SimpleChain (t.commonTypes.map Prod.fst) chain → P (.commonTypes chain)

section

variable {P : Trail → Prop} {t : SymbolTable}

theorem entry_mem_of_commonType? {name : String} {d : Scoped CommonTypeDecl}
    (h : t.commonType? name = some d) : (name, d) ∈ t.commonTypes := by
  obtain ⟨l, r, heq, -⟩ := List.lookup_eq_some_iff.1 h
  rw [heq]
  exact List.mem_append_right _ List.mem_cons_self

mutual

theorem follows_resolveType (hP : AllowsTypes P t) {fuel : Nat} {chain : List String}
    (hchain : SimpleChain (t.commonTypes.map Prod.fst) chain) (ns : String) (type : TypeExpr)
    (expanded : Expanded) (hfuel : typeFuel t chain + typeCalls type ≤ fuel) :
    Follows P (resolveType t fuel chain ns type expanded)
      (t.resolveType chain ns type expanded) := by
  cases fuel with
  | zero => cases type <;> simp [typeCalls] at hfuel
  | succ fuel =>
    cases type with
    | path p =>
      rw [resolveType, SymbolTable.resolveType]
      cases t.lookupType ns p with
      | error e => exact .ofExcept _
      | ok b =>
        cases b with
        | builtin b => exact .pure _
        | entityType name => exact .pure _
        | commonType name =>
          rw [typeCalls] at hfuel
          exact follows_expand hP hchain name expanded (by omega)
    | entity p =>
      rw [resolveType, SymbolTable.resolveType]
      exact (Follows.ofExcept _).bind fun name _ => .pure _
    | set element =>
      rw [typeCalls] at hfuel
      rw [resolveType, SymbolTable.resolveType]
      exact (follows_resolveType hP hchain ns element expanded (by omega)).bind fun x _ => .pure _
    | record r =>
      obtain ⟨attributes, comments⟩ := r
      rw [typeCalls, recordCalls] at hfuel
      rw [resolveType, SymbolTable.resolveType]
      have hfields := follows_resolveFields hP hchain ns .empty attributes expanded
        (by omega : _ ≤ fuel)
      exact hfields.bind fun x _ => .pure _
termination_by fuel

theorem follows_resolveFields (hP : AllowsTypes P t) {fuel : Nat} {chain : List String}
    (hchain : SimpleChain (t.commonTypes.map Prod.fst) chain) (ns : String)
    (fields : Dict String (Field ResolvedType)) (attributes : List (Attribute TypeExpr))
    (expanded : Expanded) (hfuel : typeFuel t chain + attributesCalls attributes ≤ fuel) :
    Follows P (resolveFields t fuel chain ns fields attributes expanded)
      (t.resolveFields chain ns fields attributes expanded) := by
  cases fuel with
  | zero => cases attributes <;> simp [attributesCalls] at hfuel
  | succ fuel =>
    cases attributes with
    | nil =>
      rw [resolveFields, SymbolTable.resolveFields]
      exact .pure _
    | cons a rest =>
      obtain ⟨name, type, required, annotations, comments⟩ := a
      rw [attributesCalls] at hfuel
      rw [resolveFields, SymbolTable.resolveFields]
      refine (follows_resolveType hP hchain ns type expanded (by omega)).bind ?_
      rintro ⟨type', expanded⟩ -
      dsimp only
      split
      · exact .ofExcept _
      · exact follows_resolveFields hP hchain ns _ rest expanded (by omega)
termination_by fuel

theorem follows_expand (hP : AllowsTypes P t) {fuel : Nat} {chain : List String}
    (hchain : SimpleChain (t.commonTypes.map Prod.fst) chain) (name : String)
    (expanded : Expanded) (hfuel : typeFuel t chain + 1 ≤ fuel) :
    Follows P (expand t fuel chain name expanded) (t.expand chain name expanded) := by
  cases fuel with
  | zero => cases hfuel
  | succ fuel =>
    rw [expand, SymbolTable.expand_eq]
    cases expanded.find? name with
    | some type => exact .pure _
    | none =>
      dsimp only
      by_cases hn : chain.contains name = true
      · rw [if_pos hn, if_pos hn]
        exact .ofExcept _
      · rw [if_neg hn, if_neg hn]
        cases hd : t.commonType? name with
        | none => exact .ofExcept _
        | some d =>
          have hnew : name ∉ chain := fun h => hn (List.contains_iff_mem.2 h)
          have hchain' := hchain.append (SymbolTable.mem_of_commonType? hd) hnew
          have hpaid : typeFuel t (chain ++ [name]) + typeCalls d.decl.type ≤ typeFuel t chain :=
            costOutside_append_add_le (entry_mem_of_commonType? hd) hnew
          refine .entering (hP _ hchain') (.map ?_)
          exact follows_resolveType hP hchain' d.ns d.decl.type expanded (by omega)
termination_by fuel

end

end

/-! ## Visiting actions -/

/-- The fuel for the actions that are not on the chain. -/
def visitFuel (actions : ActionDict) (chain : List EntityUid) : Nat :=
  costOutside (fun a : ResolvedAction => a.parents.length + 2) actions.entries chain

mutual

/-- The search for a cycle, as without fuel; each call costs one unit. -/
def visit (actions : ActionDict) (fuel : Nat) (chain : List EntityUid) (uid : EntityUid)
    (done : List EntityUid) : Recorded (List EntityUid) :=
  match fuel with
  | 0 => .outOfFuel
  | fuel + 1 =>
    if done.contains uid then pure done
    else if chain.contains uid then .ofExcept (.error (.actionCycle (cycleFrom uid chain)))
    else .entering (.actions (chain ++ [uid])) <|
      match actions.find? uid with
      | none => pure (uid :: done)
      | some a => (uid :: ·) <$> visitAll actions fuel (chain ++ [uid]) a.parents done
termination_by structural fuel

def visitAll (actions : ActionDict) (fuel : Nat) (chain : List EntityUid)
    (uids done : List EntityUid) : Recorded (List EntityUid) :=
  match fuel with
  | 0 => .outOfFuel
  | fuel + 1 =>
    match uids with
    | [] => pure done
    | uid :: rest => do
      let done ← visit actions fuel chain uid done
      visitAll actions fuel chain rest done
termination_by structural fuel

end

/-- `P` holds of every simple chain of actions. -/
def AllowsActions (P : Trail → Prop) (actions : ActionDict) : Prop :=
  ∀ chain, SimpleChain actions.keys chain → P (.actions chain)

section

variable {P : Trail → Prop} {actions : ActionDict}

mutual

theorem follows_visit (hP : AllowsActions P actions) (hclosed : actions.Closed) {fuel : Nat}
    {chain : List EntityUid} (hchain : SimpleChain actions.keys chain) {uid : EntityUid}
    (huid : uid ∈ actions.keys) (done : List EntityUid)
    (hfuel : visitFuel actions chain + 1 ≤ fuel) :
    Follows P (visit actions fuel chain uid done) (actions.visit chain uid done) := by
  cases fuel with
  | zero => cases hfuel
  | succ fuel =>
    rw [visit, ActionDict.visit_eq]
    split
    · exact .pure _
    · split
      · exact .ofExcept _
      · rename_i hc
        have hnew : uid ∉ chain := fun h => hc (List.contains_iff_mem.2 h)
        have hchain' := hchain.append huid hnew
        refine .entering (hP _ hchain') ?_
        cases ha : actions.find? uid with
        | none => exact .pure _
        | some a =>
          have hmem := Dict.mem_entries_iff.2 ha
          have hpaid : visitFuel actions (chain ++ [uid]) + (a.parents.length + 2) ≤
              visitFuel actions chain := costOutside_append_add_le hmem hnew
          have hparents := hclosed a (List.mem_map_of_mem (f := Prod.snd) hmem)
          exact .map (follows_visitAll hP hclosed hchain' hparents done (by omega))
termination_by fuel

theorem follows_visitAll (hP : AllowsActions P actions) (hclosed : actions.Closed) {fuel : Nat}
    {chain : List EntityUid} (hchain : SimpleChain actions.keys chain) {uids : List EntityUid}
    (huids : ∀ uid ∈ uids, uid ∈ actions.keys) (done : List EntityUid)
    (hfuel : visitFuel actions chain + uids.length + 2 ≤ fuel) :
    Follows P (visitAll actions fuel chain uids done) (actions.visitAll chain uids done) := by
  cases fuel with
  | zero => cases hfuel
  | succ fuel =>
    cases uids with
    | nil =>
      rw [visitAll, ActionDict.visitAll]
      exact .pure _
    | cons uid rest =>
      obtain ⟨huid, hrest⟩ := List.forall_mem_cons.1 huids
      rw [List.length_cons] at hfuel
      rw [visitAll, ActionDict.visitAll]
      refine (follows_visit hP hclosed hchain huid done (by omega)).bind fun done _ => ?_
      exact follows_visitAll hP hclosed hchain hrest done (by omega)
termination_by fuel

end

end

end Recorded

end CedarSchema
