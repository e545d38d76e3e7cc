import CedarSchema.Proofs.Token.Tiling

/-
  Texts that are not tokens throughout. Reading gives the tokens up to the first failure. Each token
  starts at a place in the text, the failure is at one, and all those tokens start before it
  (`TokenStream.Runs`).
-/

namespace CedarSchema

open Text
open String (utf8Len)

/-! ## Tokens and failure of a stream -/

namespace TokenStream

/-- The tokens up to the first failure, with that of the end of the text if it is reached. -/
def tokens : TokenStream → List Token
  | eof pos => [⟨.eof, pos, pos⟩]
  | failed _ _ => []
  | token t rest => t :: rest.tokens

/-- The failure that the text runs into, if it does. -/
def failure : TokenStream → Option (Position × LexError)
  | eof _ => none
  | failed pos e => some (pos, e)
  | token _ rest => rest.failure

theorem toExcept_eq (stream : TokenStream) :
    stream.toExcept = match stream.failure with
      | none => .ok stream.tokens
      | some f => .error f := by
  induction stream with
  | eof pos => rfl
  | failed pos e => rfl
  | token t rest ih =>
    rw [toExcept, ih, failure, tokens]
    cases rest.failure with
    | none => rfl
    | some f => rfl

end TokenStream

theorem tokenize_eq_error_iff {text : String} {f : Position × LexError} :
    tokenize text = .error f ↔ (TokenStream.ofText text).failure = some f := by
  rw [tokenize, TokenStream.toExcept_eq]
  cases (TokenStream.ofText text).failure with
  | none => exact iff_of_false (fun h => by cases h) (fun h => by cases h)
  | some g => rw [Except.error.injEq, Option.some.injEq]

/-! ## Where reading a token fails -/

namespace Lexer

/-- What an error in a literal has before it is what the literal begins with. -/
theorem isPrefix_of_stringBody {cs before : List Char} {cause : LexError}
    (h : (stringBody cs).value = .error (cause, some before)) : before <+: cs := by
  fun_induction stringBody cs generalizing before with
  | case1 | case2 | case3 | case4 | case5 => cases h
  | case6 =>
    cases h
    exact List.nil_prefix
  | case7 =>
    rename_i c r _ e x he _ s used ih
    dsimp only at h
    split at h
    · cases h
    · rename_i cause' before' hvalue
      cases before' with
      | none => cases h
      | some inner =>
        cases h
        have happend : used ++ e.rest = '\\' :: c :: r := congrArg ('\\' :: ·) (escape_append c r)
        rw [← happend]
        exact (List.prefix_append_right_inj used).2 (ih hvalue)
  | case8 =>
    rename_i ih
    dsimp only at h
    split at h
    · cases h
    · rename_i cause' before' hvalue
      cases before' with
      | none => cases h
      | some inner =>
        cases h
        exact List.cons_prefix_cons.2 ⟨rfl, ih hvalue⟩

theorem isPrefix_of_scan {cs before : List Char} {cause : LexError}
    (h : (scan cs).value = .error (cause, before)) : before <+: cs := by
  unfold scan at h
  split at h
  · cases h
  · cases h
  · split at h
    · cases h
    · cases h
      exact List.nil_prefix
  · dsimp only at h
    split at h
    · cases h
    · cases h
      exact List.nil_prefix
    · rename_i inner hvalue
      cases h
      exact List.cons_prefix_cons.2 ⟨rfl, isPrefix_of_stringBody hvalue⟩
  · split at h
    · cases h
    · split at h
      · cases h
      · cases h
        exact List.nil_prefix

end Lexer

/-- A failure to read the next token is at a place ahead. -/
theorem Cursor.fail_of_next {c c' : Cursor} {pos : Position} {e : LexError} {before : List Char}
    (hpos : c.pos = Position.start.afterAll before) (h : c.next = (.error (pos, e), c')) :
    ∃ front behind, c.rest = front ++ behind ∧ pos = Position.start.afterAll (before ++ front) := by
  unfold next at h
  dsimp only at h
  split at h
  · cases h
  · rename_i cause inner hvalue
    cases h
    obtain ⟨behind, hbehind⟩ := Lexer.isPrefix_of_scan hvalue
    refine ⟨c.rest.takeWhile isBlank ++ inner, behind, ?_, ?_⟩
    · rw [List.append_assoc, hbehind]
      exact List.takeWhile_append_dropWhile.symm
    · unfold skipBlanks
      rw [hpos, ← Position.afterAll_append, ← Position.afterAll_append]

/-! ## Places -/

namespace TokenStream

/-- Behind `before`, the text ahead is read as the tokens of a stream, up to its end or to a failure
somewhere in it. -/
inductive Runs : (before ahead : List Char) → TokenStream → Prop
  | eof {before gap : List Char} : Runs before gap (.eof (.afterAll .start (before ++ gap)))
  | failed {before front behind : List Char} {e : LexError} :
    Runs before (front ++ behind) (.failed (.afterAll .start (before ++ front)) e)
  | token {before gap span ahead : List Char} {l : Lexeme} {stop : Position} {rest : TokenStream}
      (hspan : span ≠ []) (hrest : Runs (before ++ gap ++ span) ahead rest) :
    Runs before (gap ++ span ++ ahead)
      (.token ⟨l, .afterAll .start (before ++ gap), stop⟩ rest)

theorem runs_ofCursor (c : Cursor) (before : List Char)
    (hpos : c.pos = Position.start.afterAll before) : Runs before c.rest (ofCursor c) := by
  fun_induction ofCursor c generalizing before with
  | case1 c pos e c' h =>
    obtain ⟨front, behind, hrest, rfl⟩ := Cursor.fail_of_next hpos h
    rw [hrest]
    exact .failed
  | case2 c t c' h ht =>
    obtain ⟨gap, span, hstep⟩ := Cursor.step_of_next hpos h
    have hstands := hstep.stands
    rw [ht] at hstands
    obtain ⟨rfl, hbehind⟩ := hstands
    rw [hstep.rest, hbehind, List.append_nil, List.append_nil, hstep.start]
    exact .eof
  | case3 c t c' h ht _ ih =>
    obtain ⟨gap, span, hstep⟩ := Cursor.step_of_next hpos h
    obtain ⟨l, start, stop⟩ := t
    have hstart : start = _ := hstep.start
    rw [hstep.rest, hstart]
    exact .token (hstep.stands.ne_nil ht) (ih _ hstep.pos)

theorem runs_ofText (text : String) : Runs [] text.toList (ofText text) :=
  runs_ofCursor (.ofText text) [] rfl

namespace Runs

variable {before ahead : List Char} {stream : TokenStream} {pos : Position} {e : LexError}

theorem utf8Len_le_of_failure (h : Runs before ahead stream)
    (hf : stream.failure = some (pos, e)) : utf8Len before ≤ pos.offset := by
  induction h with
  | eof => cases hf
  | failed =>
    cases hf
    rw [Position.offset_afterAll_start, String.utf8Len_append]
    omega
  | token hspan hrest ih =>
    have h := ih hf
    rw [String.utf8Len_append, String.utf8Len_append] at h
    omega

/-- A token is read only where it starts before the failure that reading runs into. -/
theorem offset_lt_of_failure (h : Runs before ahead stream)
    (hf : stream.failure = some (pos, e)) : ∀ t ∈ stream.tokens, t.start.offset < pos.offset := by
  induction h with
  | eof => cases hf
  | failed => exact List.forall_mem_nil _
  | token hspan hrest ih =>
    refine List.forall_mem_cons.2 ⟨?_, ih hf⟩
    have hle := hrest.utf8Len_le_of_failure hf
    have hpos := utf8Len_pos hspan
    rw [String.utf8Len_append] at hle
    rw [Position.offset_afterAll_start]
    omega

end Runs

end TokenStream

end CedarSchema
