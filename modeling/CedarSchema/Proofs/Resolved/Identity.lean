import CedarSchema.EntityUid
import CedarSchema.Proofs.Token.Literal
import Mathlib.Data.List.Chain
import Mathlib.Tactic.SplitIfs

/-
  The text of an identity tells the type and the id, whatever characters both consist of. A type may
  hold double colons and quotes, so the text cannot be split at the first or the last of these. It
  is split at the last `::"` that has something behind it: behind that quote there is only what a
  literal is written with, and a quote in a literal has a backslash before it, never a colon.
-/

namespace CedarSchema

open Text Lexer

/-! ## Quotes inside of literals -/

/-- A quote stands behind nothing but a backslash. -/
def EscapesQuotes (cs : List Char) : Prop := cs.IsChain fun a b => b = '"' → a = '\\'

theorem escapesQuotes_cons_cons {a b : Char} {cs : List Char} :
    EscapesQuotes (a :: b :: cs) ↔ (b = '"' → a = '\\') ∧ EscapesQuotes (b :: cs) :=
  List.isChain_cons_cons

theorem escapesQuotes_of_no_quote {cs : List Char} (h : '"' ∉ cs) (a : Char) :
    EscapesQuotes (a :: cs) := by
  induction cs generalizing a with
  | nil => exact List.isChain_singleton a
  | cons b cs ih =>
    rw [List.mem_cons, not_or] at h
    exact escapesQuotes_cons_cons.2 ⟨fun hb => (h.1 hb.symm).elim, ih h.2 b⟩

theorem no_quote_hexEscape (c : Char) : '"' ∉ hexEscape c := by
  have hdigits : '"' ∉ hexDigits c.toNat := fun h =>
    absurd (isHexDigit_of_mem_hexDigits h) (by decide)
  simp [hexEscape, hdigits]

theorem escapesQuotes_encodeChar (a c : Char) : EscapesQuotes (a :: encodeChar c) := by
  by_cases hc : c = '"'
  · subst hc
    refine escapesQuotes_cons_cons.2 ⟨fun h => absurd h (by decide), ?_⟩
    exact escapesQuotes_cons_cons.2 ⟨fun _ => rfl, List.isChain_singleton _⟩
  · refine escapesQuotes_of_no_quote ?_ a
    unfold encodeChar
    rw [if_neg hc]
    split_ifs
    · decide
    · decide
    · decide
    · decide
    · decide
    · exact no_quote_hexEscape c
    · simpa using Ne.symm hc

/-- Whatever stands before it, the body of a literal has no quote that is not escaped. -/
theorem escapesQuotes_flatMap (a : Char) (cs : List Char) :
    EscapesQuotes (a :: cs.flatMap encodeChar) := by
  have happend {l m : List Char} (hm : ∀ a, EscapesQuotes (a :: m)) {a : Char}
      (hl : EscapesQuotes (a :: l)) : EscapesQuotes (a :: (l ++ m)) := by
    induction l generalizing a with
    | nil => exact hm a
    | cons b l ih =>
      obtain ⟨hab, hl⟩ := escapesQuotes_cons_cons.1 hl
      exact escapesQuotes_cons_cons.2 ⟨hab, ih hl⟩
  induction cs generalizing a with
  | nil => exact List.isChain_singleton a
  | cons c cs ih => exact happend ih (escapesQuotes_encodeChar a c)

theorem EscapesQuotes.eq_backslash {l m : List Char} {a : Char}
    (h : EscapesQuotes (l ++ a :: '"' :: m)) : a = '\\' := by
  have htail : EscapesQuotes (a :: '"' :: m) := h.right_of_append
  exact (escapesQuotes_cons_cons.1 htail).1 rfl

/-! ## Identities -/

theorem quoteChars_injective : Function.Injective quoteChars := by
  intro cs cs' h
  have hread := stringBody_encode cs []
  rw [(List.cons.inj h).2, stringBody_encode] at hread
  have hvalue : (Except.ok cs' : Except _ _) = .ok cs := congrArg Scan.value hread
  exact (Except.ok.inj hvalue).symm

/-- Behind the last double colon of an identity there is no other one before a literal. -/
theorem eq_nil_of_append_literal {x cs cs' : List Char}
    (h : ':' :: ':' :: quoteChars cs = x ++ ':' :: ':' :: quoteChars cs') : x = [] := by
  match x with
  | [] => rfl
  | [_] => simp [quoteChars] at h
  | [_, _] => simp [quoteChars] at h
  | _ :: _ :: _ :: y =>
    -- The other double colon lies in the literal; the quote behind it is not the last one.
    have htail := (List.cons.inj (List.cons.inj (List.cons.inj h).2).2).2
    have hbody : cs.flatMap encodeChar ++ ['"'] =
        (y ++ [':']) ++ ':' :: '"' :: cs'.flatMap encodeChar ++ ['"'] := by
      refine htail.trans ?_
      show y ++ ':' :: ':' :: quoteChars cs' = _
      simp only [quoteChars, List.append_assoc, List.cons_append, List.nil_append]
    have hcolon := escapesQuotes_flatMap ':' cs
    rw [List.append_cancel_right hbody, ← List.cons_append] at hcolon
    exact absurd hcolon.eq_backslash (by decide)

theorem EntityUid.text_injective : Function.Injective EntityUid.text := by
  have hchars (u : EntityUid) :
      u.text.toList = u.type.toList ++ ':' :: ':' :: quoteChars u.id.toList := by
    simp [text, quote]
  intro u v h
  have hlists := congrArg String.toList h
  rw [hchars, hchars] at hlists
  have htypes : u.type.toList = v.type.toList := by
    rcases List.append_eq_append_iff.1 hlists with ⟨x, hx, hrest⟩ | ⟨x, hx, hrest⟩
    · rw [hx, eq_nil_of_append_literal hrest, List.append_nil]
    · rw [hx, eq_nil_of_append_literal hrest, List.append_nil]
  rw [htypes] at hlists
  have hids : quoteChars u.id.toList = quoteChars v.id.toList :=
    (List.cons.inj (List.cons.inj (List.append_cancel_left hlists)).2).2
  have htype : u.type = v.type := String.toList_inj.1 htypes
  have hid : u.id = v.id := String.toList_inj.1 (quoteChars_injective hids)
  obtain ⟨type, id⟩ := u
  obtain ⟨type', id'⟩ := v
  rw [EntityUid.mk.injEq]
  exact ⟨htype, hid⟩

end CedarSchema
