/-
  Chains of keys that a search has entered and not yet left. A key that is on the chain already
  closes a cycle; a key that is not leaves fewer keys outside, so a search over finitely many keys
  ends.
-/

namespace CedarSchema

/-- The part of a chain from `x` on, closed by `x` itself. -/
def cycleFrom {κ : Type} [BEq κ] (x : κ) (chain : List κ) : List κ :=
  chain.dropWhile (· != x) ++ [x]

/-- How many of the keys are not on the chain. -/
def outside {κ : Type} [BEq κ] (keys chain : List κ) : Nat :=
  keys.countP fun k => !chain.contains k

section

variable {κ : Type} [BEq κ]

theorem contains_of_append {chain : List κ} {x k : κ}
    (h : (!(chain ++ [x]).contains k) = true) : (!chain.contains k) = true := by
  simp only [List.contains_append, Bool.not_or, Bool.and_eq_true] at h
  exact h.1

theorem outside_append_le (keys chain : List κ) (x : κ) :
    outside keys (chain ++ [x]) ≤ outside keys chain :=
  List.countP_mono_left fun _ _ => contains_of_append

variable [LawfulBEq κ] in
/-- A key that joins the chain is outside no longer. -/
theorem outside_append_lt {keys chain : List κ} {x : κ} (hx : x ∈ keys)
    (hc : chain.contains x = false) : outside keys (chain ++ [x]) < outside keys chain := by
  induction keys with
  | nil => cases hx
  | cons k keys ih =>
    have hle := outside_append_le keys chain x
    simp only [outside, List.countP_cons] at ih hle ⊢
    by_cases hk : k = x
    · subst hk
      have hin : (chain ++ [k]).contains k = true := by simp
      rw [hc, hin]
      simp only [Bool.not_true, Bool.not_false, if_true, Bool.false_eq_true, if_false]
      omega
    · have := ih ((List.mem_cons.1 hx).resolve_left (Ne.symm hk))
      split
      · rename_i h
        rw [if_pos (contains_of_append h)]
        omega
      · omega

end

end CedarSchema
