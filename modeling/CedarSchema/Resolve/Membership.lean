import CedarSchema.Resolve.Chain
import CedarSchema.Resolve.Error
import CedarSchema.Resolved.Schema

/-
  Membership of actions in actions. Every parent has to be an action of the schema, and no action
  may be a member of itself, directly or through others. The search goes from child to parent;
  actions once left are done and not searched again.
-/

namespace CedarSchema

/-- Resolved actions under their identities. -/
abbrev ActionDict := Dict EntityUid ResolvedAction

namespace ActionDict

/-- The first action, in the order of identities, that has a parent which is no action, with the
first such parent. -/
def danglingParent (actions : ActionDict) : Option (EntityUid × EntityUid) :=
  actions.values.findSome? fun a =>
    (a.parents.find? fun p => !actions.contains p).map fun p => (a.uid, p)

mutual

/-- Searches the ancestors of an action for a cycle, below the actions of `chain`. Gives the
actions that are done. -/
def visit (actions : ActionDict) (chain : List EntityUid) (uid : EntityUid)
    (done : List EntityUid) : Except ResolveError (List EntityUid) :=
  if done.contains uid then .ok done
  else if hc : chain.contains uid then .error (.actionCycle (cycleFrom uid chain))
  else
    match ha : actions.find? uid with
    | none => .ok (uid :: done)
    | some a => do
      have := outside_append_lt (Dict.mem_keys_of_find? ha) (Bool.eq_false_iff.2 hc)
      let done ← visitAll actions (chain ++ [uid]) a.parents done
      return uid :: done
termination_by (outside actions.keys chain, 0)

/-- Searches the ancestors of each of some actions. -/
def visitAll (actions : ActionDict) (chain : List EntityUid) (uids done : List EntityUid) :
    Except ResolveError (List EntityUid) :=
  match uids with
  | [] => .ok done
  | uid :: rest => do
    let done ← visit actions chain uid done
    visitAll actions chain rest done
termination_by (outside actions.keys chain, uids.length + 1)

end

/-- Refuses actions with a parent that is none of them, then actions with a cycle. -/
def check (actions : ActionDict) : Except ResolveError Unit := do
  match danglingParent actions with
  | some (action, parent) => throw (.undefinedAction action parent)
  | none =>
    let _ ← visitAll actions [] actions.keys []
    return ()

end ActionDict

end CedarSchema
