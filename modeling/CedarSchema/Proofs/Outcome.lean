/-
  How a computation ends: with a value of which one thing holds, or with an error of which another
  does. With an impossible error the statement says that the computation succeeds, with any error
  allowed it speaks of successes only; one set of rules serves both.
-/

namespace CedarSchema

/-- The computation ends with a value of which `P` holds or with an error of which `E` holds. -/
def Ends {ε α : Type} (E : ε → Prop) (r : Except ε α) (P : α → Prop) : Prop :=
  match r with
  | .ok a => P a
  | .error e => E e

@[simp] theorem ok_bind {ε α β : Type} (a : α) (f : α → Except ε β) : (.ok a >>= f) = f a := rfl

namespace Ends

variable {ε α β : Type} {E E' : ε → Prop} {r : Except ε α} {P P' : α → Prop} {Q : β → Prop}

theorem ok {a : α} (h : P a) : Ends E (.ok a) P := h

theorem pure {a : α} (h : P a) : Ends E (Pure.pure a) P := h

theorem throw {e : ε} (h : E e) : Ends E (throw e) P := h

theorem bind {f : α → Except ε β} (hr : Ends E r P) (hf : ∀ a, P a → Ends E (f a) Q) :
    Ends E (r >>= f) Q := by
  cases r with
  | ok a => exact hf a hr
  | error e => exact hr

theorem map {f : α → β} (hr : Ends E r fun a => Q (f a)) : Ends E (f <$> r) Q := by
  cases r with
  | ok a => exact hr
  | error e => exact hr

/-- A fold ends as its steps do, each of which keeps what holds of the state. -/
theorem foldlM {f : β → α → Except ε β} {l : List α} {b : β} (hb : Q b)
    (h : ∀ b, Q b → ∀ a ∈ l, Ends E (f b a) Q) : Ends E (l.foldlM f b) Q := by
  induction l generalizing b with
  | nil => exact hb
  | cons a l ih =>
    rw [List.foldlM_cons]
    exact (h b hb a List.mem_cons_self).bind fun b hb => ih hb fun b hb a ha =>
      h b hb a (List.mem_cons_of_mem _ ha)

/-- If each element gives a value of which `Q` holds, all the values are such. -/
theorem mapM {f : α → Except ε β} {l : List α} (h : ∀ a ∈ l, Ends E (f a) Q) :
    Ends E (l.mapM f) fun bs => ∀ b ∈ bs, Q b := by
  induction l with
  | nil => exact ok nofun
  | cons a l ih =>
    obtain ⟨ha, hl⟩ := List.forall_mem_cons.1 h
    rw [List.mapM_cons]
    refine bind ha fun b hb => bind (ih hl) fun bs hbs => pure ?_
    exact List.forall_mem_cons.2 ⟨hb, hbs⟩

theorem mono (hr : Ends E r P) (hP : ∀ a, P a → P' a) (hE : ∀ e, E e → E' e) : Ends E' r P' := by
  cases r with
  | ok a => exact hP a hr
  | error e => exact hE e hr

theorem imp (hr : Ends E r P) (hP : ∀ a, P a → P' a) : Ends E r P' := hr.mono hP fun _ => id

theorem and (hr : Ends E r P) (hr' : Ends E' r P') : Ends E r fun a => P a ∧ P' a := by
  cases r with
  | ok a => exact ⟨hr, hr'⟩
  | error e => exact hr

theorem impError (hr : Ends E r P) (hE : ∀ e, E e → E' e) : Ends E' r P := hr.mono (fun _ => id) hE

theorem of_ok {a : α} (hr : Ends E r P) (h : r = .ok a) : P a := by
  rw [h] at hr
  exact hr

theorem of_error {e : ε} (hr : Ends E r P) (h : r = .error e) : E e := by
  rw [h] at hr
  exact hr

/-- Without a possible error there is a value. -/
theorem exists_ok (hr : Ends (fun _ => False) r P) : ∃ a, r = .ok a ∧ P a := by
  cases r with
  | ok a => exact ⟨a, rfl, hr⟩
  | error e => exact hr.elim

end Ends

theorem exists_ok_of_isOk {ε α : Type} {r : Except ε α} (h : r.isOk = true) : ∃ a, r = .ok a := by
  cases r with
  | ok a => exact ⟨a, rfl⟩
  | error e => cases h

theorem mapError_eq_ok_iff {ε ε' α : Type} {r : Except ε α} {f : ε → ε'} {a : α} :
    r.mapError f = .ok a ↔ r = .ok a := by
  cases r with
  | ok b =>
    constructor
    all_goals
      intro h
      cases h
      rfl
  | error e =>
    constructor
    all_goals
      intro h
      cases h

end CedarSchema
