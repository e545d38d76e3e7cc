import CedarSchema.Proofs.Resolve.Result
import Mathlib

/-
  What a report of a cycle says. Whether common types or actions go in a circle, the keys that are
  reported are declared, none comes twice but the first, which comes last once more, and each leads
  to the next (`CycleReport`). A cycle is reported whenever there is one and nothing is wrong that
  is looked at before: of common types if their bodies are well bound, of actions if all their
  parents are actions. Otherwise the check of actions names the first action, in the order of
  identities, that has a parent which is none, and the first such parent (`FirstDangling`).
-/

namespace CedarSchema

/-! ## Reports -/

/-- The list goes from key to key along the relation, each of them different and all of them among
`keys`, and back to the key it begins with. -/
structure CycleReport {κ : Type} (R : κ → κ → Prop) (keys cycle : List κ) : Prop where
  two_le_length : 2 ≤ cycle.length
  closed : cycle.head? = cycle.getLast?
  nodup : cycle.dropLast.Nodup
  subset : ∀ k ∈ cycle.dropLast, k ∈ keys
  isChain : cycle.IsChain R

section

variable {κ : Type} {R : κ → κ → Prop} {keys cycle : List κ}

theorem exists_rel_of_mem_dropLast {l : List κ} (h : l.IsChain R) {k : κ} (hk : k ∈ l.dropLast) :
    ∃ k', R k k' := by
  induction l with
  | nil => cases hk
  | cons a l ih =>
    cases l with
    | nil => cases hk
    | cons b l =>
      obtain ⟨hab, hl⟩ := List.isChain_cons_cons.1 h
      rw [List.dropLast_cons_cons] at hk
      rcases List.mem_cons.1 hk with rfl | hk
      · exact ⟨b, hab⟩
      · exact ih hl hk

/-- A cycle can be reported if nothing outside of the keys leads on. -/
theorem IsCycle.report (h : IsCycle R cycle) (hkeys : ∀ a b, R a b → a ∈ keys) :
    CycleReport R keys cycle := by
  obtain ⟨x, l, rfl, hnodup, hchain⟩ := h
  refine ⟨?_, ?_, ?_, fun k hk => ?_, hchain⟩
  · simp
  · rw [List.head?_cons, ← List.cons_append, List.getLast?_concat]
  · rwa [← List.cons_append, List.dropLast_concat]
  · obtain ⟨k', hk'⟩ := exists_rel_of_mem_dropLast hchain hk
    exact hkeys k k' hk'

end

/-! ## Common types -/

namespace SymbolTable

variable {t : SymbolTable} {s : Schema}

/-- Expanding the common types succeeds only without a cycle. If it fails, it fails with a cycle
that there is, or some body is not well bound. -/
theorem ends_expandCommonTypes (t : SymbolTable) :
    Ends (t.Blames t.BindsBodies) t.expandCommonTypes fun _ => Acyclic t.Refers := by
  have hblames := blames_expandAll (t.commonTypes.map Prod.fst) .empty (sound_empty (t := t))
    fun _ => commonType?_of_mem
  exact (hblames.and (needs_expandCommonTypes t)).imp fun _ h => h.2.1.1

theorem Refers.mem_commonTypes {a b : String} (h : t.Refers a b) :
    a ∈ t.commonTypes.map Prod.fst := by
  obtain ⟨d, hd, -⟩ := h
  exact mem_of_commonType? hd

theorem commonTypes_perm (s : Schema) : (s.table.commonTypes.map Prod.fst).Perm s.commonTypeNames :=
  (s.scopedDecls_perm.flatMap_right Scoped.commonTypes).map Prod.fst

/-- A reported cycle of common types is one, and if their bodies are well bound, any cycle among
them leads to a report, whether or not something uses it. -/
theorem expandCommonTypes_reports_cycles (h : ofSchema s = .ok t) :
    (∀ cycle, t.expandCommonTypes = .error (.commonTypeCycle cycle) →
        CycleReport t.Refers s.commonTypeNames cycle) ∧
      (t.BindsBodies → ¬Acyclic t.Refers →
        ∃ cycle, t.expandCommonTypes = .error (.commonTypeCycle cycle)) := by
  obtain ⟨-, rfl⟩ := (needs_ofSchema s).of_ok h
  have hends := ends_expandCommonTypes s.table
  refine ⟨fun cycle hcycle => ?_, fun hbodies hcyclic => ?_⟩
  · have hreport : IsCycle s.table.Refers cycle := hends.of_error hcycle
    exact hreport.report fun a b hab => (commonTypes_perm s).mem_iff.1 hab.mem_commonTypes
  · cases hresult : s.table.expandCommonTypes with
    | ok expanded => exact (hcyclic (hends.of_ok hresult)).elim
    | error e =>
      have hblames := hends.of_error hresult
      cases e with
      | commonTypeCycle cycle => exact ⟨cycle, rfl⟩
      | undefinedAction action parent => exact hblames.elim
      | actionCycle cycle => exact hblames.elim
      | _ => exact (hblames hbodies).elim

/-- Two common types that refer to each other, below a set and inside a record and in two
namespaces, and a third that leads into the cycle. Nothing uses any of them. -/
def mutualTypes : Schema where
  items := [
    .decl (.commonType { name := "Start", type := .path ⟨["N", "A"]⟩ }),
    .block {
      path := ⟨["N"]⟩
      decls := [.commonType { name := "A", type := .set (.path ⟨["B"]⟩) }] },
    .decl (.commonType {
      name := "B"
      type := .record { attributes := [{ name := "a", type := .path ⟨["N", "A"]⟩ }] } })]

theorem expandCommonTypes_reports_cycles_mutualTypes : ∃ t, ofSchema mutualTypes = .ok t ∧
    t.expandCommonTypes = .error (.commonTypeCycle ["N::A", "B", "N::A"]) ∧
    CycleReport t.Refers mutualTypes.commonTypeNames ["N::A", "B", "N::A"] := by
  have ht : ofSchema mutualTypes = .ok mutualTypes.table := by cbv
  have hcycle : mutualTypes.table.expandCommonTypes =
      .error (.commonTypeCycle ["N::A", "B", "N::A"]) := by cbv
  exact ⟨_, ht, hcycle, (expandCommonTypes_reports_cycles ht).1 _ hcycle⟩

end SymbolTable

/-! ## Actions -/

namespace ActionDict

variable {actions : ActionDict} {action parent : EntityUid}

/-- Every action stands under its own identity. -/
def Keyed (actions : ActionDict) : Prop := ∀ uid a, actions.find? uid = some a → a.uid = uid

/-- No action before `action`, in the order of identities, has a parent that is no action; `parent`
is the first of the parents of `action` that is none. -/
structure FirstDangling (actions : ActionDict) (action parent : EntityUid) : Prop where
  isFirst : ∃ a front behind, actions.find? action = some a ∧
    a.parents = front ++ parent :: behind ∧ (∀ p ∈ front, p ∈ actions.keys) ∧
    parent ∉ actions.keys
  before : ∀ uid a, actions.find? uid = some a → compare uid action = .lt →
    ∀ p ∈ a.parents, p ∈ actions.keys

theorem keyed_ofList (as : List ResolvedAction) :
    Keyed (Dict.ofList (as.map fun a => (a.uid, a))) := by
  intro uid a ha
  have hmem := Dict.mem_of_mem_ofList (Dict.mem_entries_iff.2 ha)
  obtain ⟨b, -, ⟨⟩⟩ := List.mem_map.1 hmem
  rfl

/-- The first of two lists up to the first element outside of `keys`. -/
theorem eq_of_append_cons_eq {κ : Type} {keys l l' r r' : List κ} {a b : κ}
    (h : l ++ a :: r = l' ++ b :: r') (hl : ∀ x ∈ l, x ∈ keys) (hl' : ∀ x ∈ l', x ∈ keys)
    (ha : a ∉ keys) (hb : b ∉ keys) : a = b := by
  induction l generalizing l' with
  | nil =>
    cases l' with
    | nil =>
      cases h
      rfl
    | cons c l' =>
      cases h
      exact (ha (hl' _ List.mem_cons_self)).elim
  | cons c l ih =>
    cases l' with
    | nil =>
      cases h
      exact (hb (hl _ List.mem_cons_self)).elim
    | cons d l' =>
      obtain ⟨-, h⟩ := List.cons.inj h
      exact ih h (List.forall_mem_cons.1 hl).2 (List.forall_mem_cons.1 hl').2

theorem FirstDangling.not_lt {action' parent' : EntityUid} (h : actions.FirstDangling action parent)
    (h' : actions.FirstDangling action' parent') : compare action action' ≠ .lt := by
  intro hlt
  obtain ⟨a, front, behind, ha, hparents, -, hparent⟩ := h.isFirst
  refine hparent (h'.before action a ha hlt parent ?_)
  rw [hparents]
  exact List.mem_append_right _ List.mem_cons_self

theorem FirstDangling.unique {action' parent' : EntityUid}
    (h : actions.FirstDangling action parent) (h' : actions.FirstDangling action' parent') :
    action = action' ∧ parent = parent' := by
  have haction : action = action' := by
    cases hc : compare action action' with
    | lt => exact (h.not_lt h' hc).elim
    | eq => exact Std.LawfulEqOrd.eq_of_compare hc
    | gt => exact (h'.not_lt h (Std.OrientedCmp.gt_iff_lt.1 hc)).elim
  subst haction
  obtain ⟨a, front, behind, ha, hparents, hfront, hparent⟩ := h.isFirst
  obtain ⟨a', front', behind', ha', hparents', hfront', hparent'⟩ := h'.isFirst
  cases ha.symm.trans ha'
  exact ⟨rfl, eq_of_append_cons_eq (hparents.symm.trans hparents') hfront hfront' hparent hparent'⟩

theorem find?_not_contains_eq_some {parents : List EntityUid}
    (h : (parents.find? fun p => !actions.contains p) = some parent) : ∃ front behind,
      parents = front ++ parent :: behind ∧ (∀ p ∈ front, p ∈ actions.keys) ∧
        parent ∉ actions.keys := by
  obtain ⟨hparent, front, behind, hparents, hfront⟩ := List.find?_eq_some_iff_append.1 h
  refine ⟨front, behind, hparents, fun p hp => ?_, fun hmem => ?_⟩
  · simpa [Dict.contains_iff] using hfront p hp
  · rw [Dict.contains_iff.2 hmem] at hparent
    cases hparent

theorem firstDangling_of_danglingParent (hkeyed : actions.Keyed)
    (h : actions.danglingParent = some (action, parent)) :
    actions.FirstDangling action parent := by
  obtain ⟨before, a, behind, hvalues, ha, hbefore⟩ := List.findSome?_eq_some_iff.1 h
  obtain ⟨p, hp, hpair⟩ := Option.map_eq_some_iff.1 ha
  obtain ⟨rfl, rfl⟩ := Prod.mk.inj hpair
  -- The values stand in the order of their keys, those in front under smaller ones.
  obtain ⟨front, rest, hentries, hfront, hrest⟩ := List.map_eq_append_iff.1 hvalues
  obtain ⟨⟨uid, b⟩, rest, rfl, rfl, -⟩ := List.map_eq_cons_iff.1 hrest
  have hfind : actions.find? uid = some b := by
    rw [← Dict.mem_entries_iff, hentries]
    exact List.mem_append_right _ List.mem_cons_self
  obtain rfl := hkeyed uid b hfind
  refine ⟨⟨b, ?_⟩, fun uid' b' hfind' hlt q hq => ?_⟩
  · obtain ⟨l, r, hparents, hl, hparent⟩ := find?_not_contains_eq_some hp
    exact ⟨l, r, hfind, hparents, hl, hparent⟩
  · have hascending := actions.ascending
    have hmem := Dict.mem_entries_iff.2 hfind'
    rw [hentries] at hascending hmem
    obtain ⟨-, hascending, -⟩ := List.pairwise_append.1 hascending
    rcases List.mem_append.1 hmem with hmem | hmem
    · have hnone := hbefore b' (hfront ▸ List.mem_map_of_mem (f := Prod.snd) hmem)
      rw [Option.map_eq_none_iff, List.find?_eq_none] at hnone
      simpa [Dict.contains_iff] using hnone q hq
    · rcases List.mem_cons.1 hmem with heq | hmem
      · cases heq
        rw [Std.ReflOrd.compare_self] at hlt
        cases hlt
      · have hgt := (List.pairwise_cons.1 hascending).1 _ hmem
        rw [Std.OrientedCmp.gt_iff_lt.2 hgt] at hlt
        cases hlt

theorem danglingParent_eq_some_iff (hkeyed : actions.Keyed) :
    actions.danglingParent = some (action, parent) ↔ actions.FirstDangling action parent := by
  refine ⟨firstDangling_of_danglingParent hkeyed, fun h => ?_⟩
  cases hd : actions.danglingParent with
  | none =>
    obtain ⟨a, front, behind, ha, hparents, -, hparent⟩ := h.isFirst
    refine (hparent (closed_iff.1 (danglingParent_eq_none_iff.1 hd) action parent ⟨a, ha, ?_⟩)).elim
    rw [hparents]
    exact List.mem_append_right _ List.mem_cons_self
  | some x =>
    obtain ⟨rfl, rfl⟩ := h.unique (firstDangling_of_danglingParent hkeyed hd)
    rfl

theorem check_eq_undefinedAction_iff :
    actions.check = .error (.undefinedAction action parent) ↔
      actions.danglingParent = some (action, parent) := by
  cases hd : actions.danglingParent with
  | some x =>
    have hcheck : actions.check = .error (.undefinedAction x.1 x.2) := by
      rw [check, hd]
      rfl
    rw [hcheck, Except.error.injEq, ResolveError.undefinedAction.injEq, Option.some.injEq,
      Prod.ext_iff]
  | none =>
    refine iff_of_false (fun hcheck => ?_) (Option.some_ne_none _).symm
    have hopen : ¬actions.Closed := (ends_check actions).of_error hcheck
    exact hopen (danglingParent_eq_none_iff.1 hd)

/-- The check of actions reports a parent that is no action exactly if there is one, and then the
first one. Without one it reports a cycle exactly if there is one, and what it shows is a cycle. -/
theorem check_reports_faults (hkeyed : actions.Keyed) :
    (∀ action parent, actions.check = .error (.undefinedAction action parent) ↔
        actions.FirstDangling action parent) ∧
      ((∃ action parent, actions.check = .error (.undefinedAction action parent)) ↔
        ∃ a b, actions.HasParent a b ∧ b ∉ actions.keys) ∧
      ((∀ a b, actions.HasParent a b → b ∈ actions.keys) →
        ((∃ cycle, actions.check = .error (.actionCycle cycle)) ↔ ¬Acyclic actions.HasParent)) ∧
      ∀ cycle, actions.check = .error (.actionCycle cycle) →
        CycleReport actions.HasParent actions.keys cycle ∧
          (ResolveError.actionCycle cycle).message =
            "action cycle detected: " ++ Text.join " -> " (cycle.map EntityUid.text) := by
  have hends := ends_check actions
  refine ⟨fun action parent => ?_, ?_, fun hclosed => ⟨?_, fun hcyclic => ?_⟩, fun cycle h => ?_⟩
  · rw [check_eq_undefinedAction_iff, danglingParent_eq_some_iff hkeyed]
  · have hopen : (∃ a b, actions.HasParent a b ∧ b ∉ actions.keys) ↔ ¬actions.Closed := by
      simp only [closed_iff, not_forall, exists_prop]
    rw [hopen, ← danglingParent_eq_none_iff, ← ne_eq, Option.ne_none_iff_exists', Prod.exists]
    exact exists_congr fun _ => exists_congr fun _ => check_eq_undefinedAction_iff
  · rintro ⟨cycle, hcycle⟩
    exact (hends.of_error hcycle).2.not_acyclic
  · cases hcheck : actions.check with
    | ok u => exact (hcyclic (hends.of_ok hcheck).2).elim
    | error e =>
      have hfaults := hends.of_error hcheck
      cases e with
      | actionCycle cycle => exact ⟨cycle, rfl⟩
      | undefinedAction action parent => exact (hfaults (closed_iff.2 hclosed)).elim
      | _ => exact hfaults.elim
  · refine ⟨(hends.of_error h).2.report ?_, rfl⟩
    rintro a b ⟨action, haction, -⟩
    exact Dict.mem_keys_of_find? haction

/-- Two actions that are members of each other, one of them twice, and an action before them that
leads into the cycle. -/
def mutualActions : ActionDict :=
  let action (id : String) (parents : List String) : ResolvedAction :=
    ⟨⟨"Action", id⟩, .empty, parents.map (EntityUid.mk "Action"), none⟩
  .ofList ([action "walk" ["run"], action "run" ["walk", "walk"], action "go" ["run"]].map
    fun a => (a.uid, a))

theorem check_reports_faults_mutualActions :
    let cycle := [EntityUid.mk "Action" "run", ⟨"Action", "walk"⟩, ⟨"Action", "run"⟩]
    mutualActions.Keyed ∧ mutualActions.check = .error (.actionCycle cycle) ∧
      CycleReport mutualActions.HasParent mutualActions.keys cycle := by
  intro cycle
  have hkeyed : mutualActions.Keyed := keyed_ofList _
  have hgo : compare (EntityUid.mk "Action" "go") ⟨"Action", "run"⟩ = .lt := by cbv
  have hgo' : compare (EntityUid.mk "Action" "go") ⟨"Action", "walk"⟩ = .lt := by cbv
  have hrun : compare (EntityUid.mk "Action" "run") ⟨"Action", "walk"⟩ = .lt := by cbv
  have hcheck : mutualActions.check = .error (.actionCycle cycle) := by
    simp [mutualActions, check, danglingParent, Dict.ofList, Dict.insert, Dict.empty, insertEntry,
      Dict.values, Dict.keys, Dict.contains, Dict.find?, findEntry, visitAll, visit_eq, cycleFrom,
      bind, Except.bind, Functor.map, Except.map, hgo, hrun, Std.OrientedCmp.gt_iff_lt.2 hgo,
      Std.OrientedCmp.gt_iff_lt.2 hgo', Std.OrientedCmp.gt_iff_lt.2 hrun, cycle]
  exact ⟨hkeyed, hcheck, ((check_reports_faults hkeyed).2.2.2 cycle hcheck).1⟩

end ActionDict

end CedarSchema
