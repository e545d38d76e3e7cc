import CedarSchema.Proofs.Dict
import CedarSchema.Proofs.Outcome
import CedarSchema.Proofs.Resolve.Chain
import CedarSchema.Resolve.Membership

/-
  Checking the membership of actions. Below an action that is done there is no infinite descent from
  child to parent, which the search keeps true; so when all actions are done there is no cycle. When
  the search fails it shows a cycle. The check finds no fault exactly if every parent is an action
  and no action leads back to itself (`ends_check`).
-/

namespace CedarSchema

namespace ActionDict

variable {actions : ActionDict}

/-- The action `b` is a parent of the action `a`. -/
def HasParent (actions : ActionDict) (a b : EntityUid) : Prop :=
  ∃ action, actions.find? a = some action ∧ b ∈ action.parents

/-- No chain of parents goes up from the action forever. -/
def Grounded (actions : ActionDict) (uid : EntityUid) : Prop :=
  Acc (fun a b => actions.HasParent b a) uid

/-- Every parent is an action. -/
def Closed (actions : ActionDict) : Prop :=
  ∀ action ∈ actions.values, ∀ p ∈ action.parents, p ∈ actions.keys

/-! ## The search -/

/-- An error that shows a cycle of actions. -/
def ShowsCycle (actions : ActionDict) (e : ResolveError) : Prop :=
  ∃ cycle, e = .actionCycle cycle ∧ IsCycle actions.HasParent cycle

/-- The search without the facts that make it end. -/
theorem visit_eq (actions : ActionDict) (chain : List EntityUid) (uid : EntityUid)
    (done : List EntityUid) : actions.visit chain uid done =
      if done.contains uid then .ok done
      else if chain.contains uid then .error (.actionCycle (cycleFrom uid chain))
      else
        match actions.find? uid with
        | none => .ok (uid :: done)
        | some a => (uid :: ·) <$> actions.visitAll (chain ++ [uid]) a.parents done := by
  rw [visit]
  split
  · rfl
  · split
    · rfl
    · split
      · rename_i h
        simp only [h]
      · rename_i h
        simp only [h]
        rfl

mutual

theorem ends_visit (chain : List EntityUid) (uid : EntityUid) (done : List EntityUid)
    (hdone : ∀ u ∈ done, actions.Grounded u) (hchain : Leads actions.HasParent chain uid) :
    Ends actions.ShowsCycle (actions.visit chain uid done) fun done =>
      (∀ u ∈ done, actions.Grounded u) ∧ actions.Grounded uid := by
  rw [visit_eq]
  split
  · rename_i h
    exact ⟨hdone, hdone uid (List.contains_iff_mem.1 h)⟩
  · split
    · rename_i hc
      exact ⟨_, rfl, hchain.isCycle (List.contains_iff_mem.1 hc)⟩
    · rename_i hc
      split
      · rename_i hnone
        have huid : actions.Grounded uid := by
          refine ⟨uid, fun p ⟨action, haction, _⟩ => ?_⟩
          cases hnone.symm.trans haction
        exact ⟨List.forall_mem_cons.2 ⟨huid, hdone⟩, huid⟩
      · rename_i action haction
        have hlt := outside_append_lt (Dict.mem_keys_of_find? haction) (Bool.eq_false_iff.2 hc)
        have hparents := ends_visitAll (chain ++ [uid]) action.parents done hdone fun p hp =>
          hchain.append (fun h => hc (List.contains_iff_mem.2 h)) ⟨action, haction, hp⟩
        refine Ends.map (hparents.imp fun done ⟨hdone, hparents⟩ => ?_)
        have huid : actions.Grounded uid := by
          refine ⟨uid, fun p ⟨action', haction', hp⟩ => ?_⟩
          cases haction.symm.trans haction'
          exact hparents p hp
        exact ⟨List.forall_mem_cons.2 ⟨huid, hdone⟩, huid⟩
termination_by (outside actions.keys chain, 0)

theorem ends_visitAll (chain uids done : List EntityUid) (hdone : ∀ u ∈ done, actions.Grounded u)
    (hchain : ∀ u ∈ uids, Leads actions.HasParent chain u) :
    Ends actions.ShowsCycle (actions.visitAll chain uids done) fun done =>
      (∀ u ∈ done, actions.Grounded u) ∧ ∀ u ∈ uids, actions.Grounded u := by
  cases uids with
  | nil =>
    rw [visitAll]
    exact ⟨hdone, nofun⟩
  | cons uid rest =>
    obtain ⟨huid, hrest⟩ := List.forall_mem_cons.1 hchain
    rw [visitAll]
    refine Ends.bind (ends_visit chain uid done hdone huid) fun done ⟨hdone, huid⟩ => ?_
    refine (ends_visitAll chain rest done hdone hrest).imp fun done h => ⟨h.1, ?_⟩
    exact List.forall_mem_cons.2 ⟨huid, h.2⟩
termination_by (outside actions.keys chain, uids.length + 1)

end

theorem acyclic_of_grounded (h : ∀ uid ∈ actions.keys, actions.Grounded uid) :
    Acyclic actions.HasParent := by
  intro uid hcycle
  obtain ⟨p, ⟨action, haction, -⟩, -⟩ := Relation.TransGen.head'_iff.1 hcycle
  exact not_transGen_of_acc (h uid (Dict.mem_keys_of_find? haction)) hcycle

/-! ## The check -/

theorem danglingParent_eq_none_iff : actions.danglingParent = none ↔ actions.Closed := by
  rw [danglingParent, List.findSome?_eq_none_iff]
  simp only [Option.map_eq_none_iff, List.find?_eq_none, Bool.not_eq_eq_eq_not, Bool.not_true,
    Bool.not_eq_false, Dict.contains_iff, Closed]

/-- An error that is right about the membership of actions. An undefined parent goes before a
cycle. -/
def Faults (actions : ActionDict) : ResolveError → Prop
  | .undefinedAction .. => ¬actions.Closed
  | .actionCycle cycle => actions.Closed ∧ IsCycle actions.HasParent cycle
  | _ => False

/-- The check finds no fault exactly if there is none. -/
theorem ends_check (actions : ActionDict) :
    Ends actions.Faults actions.check fun _ => actions.Closed ∧ Acyclic actions.HasParent := by
  rw [check]
  split
  · rename_i action parent h
    refine Ends.throw (E := actions.Faults) fun hclosed => ?_
    rw [danglingParent_eq_none_iff.2 hclosed] at h
    cases h
  · rename_i h
    have hclosed := danglingParent_eq_none_iff.1 h
    have hvisit := ends_visitAll [] actions.keys [] nofun fun uid _ =>
      leads_nil (R := actions.HasParent) uid
    refine Ends.bind (hvisit.impError ?_) fun done ⟨_, hall⟩ => ?_
    · rintro e ⟨cycle, rfl, hcycle⟩
      exact ⟨hclosed, hcycle⟩
    · exact ⟨hclosed, acyclic_of_grounded hall⟩

end ActionDict

end CedarSchema
