import CedarSchema.Path
import CedarSchema.Text.Quoted

/-
  Identities of entities: the name of an entity type and an id, shown as Type::"id". They are
  ordered by type, then by id.
-/

namespace CedarSchema

/-- One entity: an id among those of its type. Both may be any texts. -/
structure EntityUid where
  type : String
  id : String
  deriving DecidableEq, Repr

namespace EntityUid

/-- The type as it is, two colons, and the id as a string literal. -/
def text (u : EntityUid) : String := u.type ++ "::" ++ Text.quote u.id

instance : Ord EntityUid := ⟨compareLex (compareOn type) (compareOn id)⟩

instance : Std.TransOrd EntityUid :=
  inferInstanceAs (Std.TransCmp (compareLex (compareOn type) (compareOn id)))

instance : Std.LawfulEqOrd EntityUid where
  eq_of_compare := by
    rintro ⟨t, i⟩ ⟨t', i'⟩ h
    have h := Ordering.then_eq_eq.1 h
    have ht : t = t' := Std.LawfulEqOrd.eq_of_compare h.1
    have hi : i = i' := Std.LawfulEqOrd.eq_of_compare h.2
    rw [ht, hi]

end EntityUid

/-- The entity type of the actions of a namespace. -/
def actionType (ns : String) : String := qualify ns "Action"

end CedarSchema
