import CedarSchema.Resolve.Chain
import Mathlib.Data.List.Chain

/-
  Searching for cycles. The keys that a search has entered and not left stand on its chain, each
  related to the next and the last to the key the search looks at. If that key is on the chain
  itself, the part of the chain from there on is a cycle. A key that everything below is accessible
  from lies on no cycle.
-/

namespace CedarSchema

open Relation

section

variable {κ : Type} {R : κ → κ → Prop}

/-- No key leads back to itself. -/
def Acyclic (R : κ → κ → Prop) : Prop := ∀ x, ¬TransGen R x x

theorem acyclic_of_forall_not (h : ∀ a b, ¬R a b) : Acyclic R := by
  intro x hx
  obtain ⟨y, -, hy⟩ := TransGen.tail'_iff.1 hx
  exact h y x hy

/-- Each key is related to the next; the first is also the last, and otherwise none comes twice. -/
def IsCycle (R : κ → κ → Prop) (cycle : List κ) : Prop :=
  ∃ x l, cycle = x :: (l ++ [x]) ∧ (x :: l).Nodup ∧ cycle.IsChain R

theorem IsCycle.not_acyclic {cycle : List κ} (h : IsCycle R cycle) : ¬Acyclic R := by
  obtain ⟨x, l, rfl, -, hl⟩ := h
  intro hR
  have key (y : κ) (l : List κ) (hl : (y :: (l ++ [x])).IsChain R) : TransGen R y x := by
    induction l generalizing y with
    | nil => exact .single (List.isChain_pair.1 hl)
    | cons z l ih =>
      obtain ⟨hyz, hl⟩ := List.isChain_cons_cons.1 hl
      exact .head hyz (ih z hl)
  exact hR x (key x l hl)

/-- A relation with no infinite descent below `x` has no cycle through `x`. -/
theorem not_transGen_of_acc {x : κ} (h : Acc (fun a b => R b a) x) : ¬TransGen R x x := by
  induction h with
  | intro x _ ih =>
    intro hx
    obtain ⟨y, hxy, hyx⟩ := TransGen.head'_iff.1 hx
    exact ih y hxy (TransGen.tail' hyx hxy)

/-- The chain of a search that looks at `x`. -/
structure Leads (R : κ → κ → Prop) (chain : List κ) (x : κ) : Prop where
  isChain : (chain ++ [x]).IsChain R
  nodup : chain.Nodup

theorem leads_nil (x : κ) : Leads R [] x := ⟨List.isChain_singleton x, List.nodup_nil⟩

/-- The search enters `x` and looks at `y`. -/
theorem Leads.append {chain : List κ} {x y : κ} (h : Leads R chain x) (hx : x ∉ chain)
    (hxy : R x y) : Leads R (chain ++ [x]) y := by
  constructor
  · rw [List.isChain_append]
    exact ⟨h.isChain, List.isChain_singleton y, by simpa using hxy⟩
  · rw [List.nodup_append]
    exact ⟨h.nodup, by simp, by simpa using fun z hz => ne_of_mem_of_not_mem hz hx⟩

/-- The search comes back to a key it has entered and not left. -/
theorem Leads.isCycle [BEq κ] [LawfulBEq κ] {chain : List κ} {x : κ} (h : Leads R chain x)
    (hx : x ∈ chain) : IsCycle R (cycleFrom x chain) := by
  obtain ⟨hchain, hnodup⟩ := h
  have hfrom : ∃ l, chain.dropWhile (· != x) = x :: l := by
    clear hchain hnodup
    induction chain with
    | nil => cases hx
    | cons y chain ih =>
      by_cases hy : y = x
      · exact ⟨chain, by simp [hy]⟩
      · simpa [List.dropWhile_cons, hy] using ih ((List.mem_cons.1 hx).resolve_left (Ne.symm hy))
  have hsuffix : chain.dropWhile (· != x) <:+ chain := List.dropWhile_suffix _
  obtain ⟨l, hl⟩ := hfrom
  refine ⟨x, l, by rw [cycleFrom, hl, List.cons_append], ?_, ?_⟩
  · rw [← hl]
    exact hnodup.sublist hsuffix.sublist
  · obtain ⟨front, hfront⟩ := hsuffix
    rw [← hfront, List.append_assoc] at hchain
    exact hchain.right_of_append

end

end CedarSchema
