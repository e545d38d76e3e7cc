import CedarSchema.Parse.Decl
import CedarSchema.Proofs.Outcome

/-
  How a reading ends: with a value and a state behind it, or with a failure. There is one rule for
  each way in which readings are put together, so that what a parsing function reads follows from
  what its parts read.
-/

namespace CedarSchema

/-- The reading ends with a value and a state of which `P` holds, or with a failure of which `E`
holds. -/
def Reads {n : Nat} {α : Type} (E : ParseError → Prop) (r : Except ParseError (Reading n α))
    (P : α → ParseState → Prop) : Prop :=
  Ends E r fun x => P x.value x.state

namespace Reads

variable {m n : Nat} {α β γ : Type} {E E' : ParseError → Prop}
  {r : Except ParseError (Reading n α)} {P P' : α → ParseState → Prop} {Q : β → ParseState → Prop}

theorem pure {a : α} {s : ParseState} {h : s.left < n} (hP : P a s) :
    Reads E (Pure.pure ⟨a, s, h⟩ : Except ParseError (Reading n α)) P := hP

theorem imp (hr : Reads E r P) (h : ∀ a s, P a s → P' a s) : Reads E r P' :=
  Ends.imp hr fun x => h x.value x.state

theorem impError (hr : Reads E r P) (h : ∀ e, E e → E' e) : Reads E' r P := Ends.impError hr h

theorem and (hr : Reads E r P) (hr' : Reads E' r P') : Reads E r fun a s => P a s ∧ P' a s :=
  Ends.and hr hr'

theorem bind {f : Reading n α → Except ParseError (Reading m β)} (hr : Reads E r P)
    (hf : ∀ a s h, P a s → Reads E (f ⟨a, s, h⟩) Q) : Reads E (r >>= f) Q :=
  Ends.bind hr fun x => hf x.value x.state x.left_lt

/-- A reading at the end of which something other than a reading is made. -/
theorem bindEnds {f : Reading n α → Except ParseError β} {Q : β → Prop} (hr : Reads E r P)
    (hf : ∀ a s h, P a s → Ends E (f ⟨a, s, h⟩) Q) : Ends E (r >>= f) Q :=
  Ends.bind hr fun x => hf x.value x.state x.left_lt

theorem map {f : α → β} (hr : Reads E r fun a s => Q (f a) s) :
    Reads E (Reading.map f <$> r) Q :=
  Ends.map hr

theorem below {s : ParseState} {r : Except ParseError (Reading s.left α)} (h : s.left < n)
    (hr : Reads E r P) : Reads E (Reading.below h <$> r) P :=
  Ends.map hr

theorem upTo {s : ParseState} {r : Except ParseError (Reading (s.left + 1) α)} (h : s.left < n)
    (hr : Reads E r P) : Reads E (Reading.upTo h <$> r) P :=
  Ends.map hr

theorem behind {s s' : ParseState} {r : Except ParseError (Reading s'.left α)}
    (h : s'.left < s.left + 1) (hr : Reads E r P) : Reads E (Reading.behind h <$> r) P :=
  Ends.map hr

/-- What a check guards is read if the check passes. -/
theorem guarded {c : Bool} {e : ParseError} {f : PUnit → Except ParseError (Reading n α)}
    (hc : c = true → E e) (hf : c = false → Reads E (f ⟨⟩) P) :
    Reads E (if c = true then (do let u ← MonadExcept.throw e; f u) else f ⟨⟩) P := by
  cases c with
  | true => exact hc rfl
  | false => exact hf rfl

end Reads

namespace ParseState

variable {n : Nat} {α β : Type} {E : ParseError → Prop} {P : α → ParseState → Prop}
  {Q : β → ParseState → Prop}

theorem isAt_iff {s : ParseState} {p : Punct} : s.isAt p = true ↔ s.lookahead = .punct p := by
  simp [isAt]

theorem isAtWord_iff {s : ParseState} {w : String} :
    s.isAtWord w = true ↔ s.lookahead = .ident w := by
  simp [isAtWord]

/-- A token is read if there is one that is accepted. -/
theorem reads_take {s : ParseState} {wanted : List Wanted} {accept : Lexeme → Option α}
    (hsome : ∀ t rest a, s.front = .token t rest → accept t.lexeme = some a →
      Reads E (enter s.pending t.stop rest) fun _ s' => P a s')
    (hnone : (∀ t rest, s.front = .token t rest → accept t.lexeme = none) →
      E (s.unexpected wanted)) : Reads E (s.take wanted accept) P := by
  rw [take]
  split
  · rename_i hf
    refine hnone fun t rest h => ?_
    rw [hf] at h
    cases h
  · rename_i t rest hf
    split
    · rename_i ha
      refine hnone fun t rest h => ?_
      rw [hf] at h
      cases h
      exact ha
    · rename_i a ha
      exact Reads.bind (hsome t rest a hf ha) fun _ _ _ h => h

/-- Punctuation that may be there is read if it is, and the rest goes on either way. -/
theorem reads_eat {s : ParseState} {p : Punct}
    {f : Option (Reading s.left Unit) → Except ParseError (Reading n β)}
    (hsome : s.lookahead = .punct p → Reads E (s.expect p >>= fun x => f (some x)) Q)
    (hnone : s.lookahead ≠ .punct p → Reads E (f none) Q) : Reads E (s.eat p >>= f) Q := by
  by_cases h : s.isAt p = true
  · rw [eat, if_pos h, bind_map_left]
    exact hsome (isAt_iff.1 h)
  · rw [eat, if_neg h, pure_bind]
    exact hnone fun hl => h (isAt_iff.2 hl)

theorem reads_eatWord {s : ParseState} {w : String}
    {f : Option (Reading s.left Unit) → Except ParseError (Reading n β)}
    (hsome : s.lookahead = .ident w → Reads E (s.expectWord w >>= fun x => f (some x)) Q)
    (hnone : s.lookahead ≠ .ident w → Reads E (f none) Q) : Reads E (s.eatWord w >>= f) Q := by
  by_cases h : s.isAtWord w = true
  · rw [eatWord, if_pos h, bind_map_left]
    exact hsome (isAtWord_iff.1 h)
  · rw [eatWord, if_neg h, pure_bind]
    exact hnone fun hl => h (isAtWord_iff.2 hl)

theorem reads_optional {s : ParseState} {begins : List Lexeme}
    {read : (s : ParseState) → Except ParseError (Reading s.left α)}
    {P : Option α → ParseState → Prop}
    (hsome : s.lookahead ∈ begins → Reads E (read s) fun a s' => P (some a) s')
    (hnone : s.lookahead ∉ begins → P none s) : Reads E (s.optional begins read) P := by
  rw [optional]
  by_cases h : s.lookahead ∈ begins
  · rw [if_pos (List.contains_iff_mem.2 h)]
    exact Reads.bind (hsome h) fun _ _ _ hP => hP
  · rw [if_neg (mt List.contains_iff_mem.1 h)]
    exact hnone h

theorem reads_afterWord {w : String} {s : ParseState}
    {read : (s : ParseState) → Except ParseError (Reading s.left α)} {R : ParseState → Prop}
    (hw : Reads E (s.expectWord w) fun _ s' => R s')
    (hread : ∀ s', R s' → Reads E (read s') P) : Reads E (afterWord w read s) P :=
  Reads.bind hw fun _ s' h hR => Reads.below h (hread s' hR)

end ParseState

end CedarSchema
