import CedarSchema.Proofs.Token.Literal
import Mathlib.Data.List.TakeWhile

/-
  Lexemes are read back from their source form. A lexeme is readable if its text has the form that
  its kind asks for, and it ends before every text whose first character cannot extend it.
  `scan_source` reads a readable lexeme off such a text. In the other direction every lexeme that a
  text yields is readable (`readable_of_scan`), so whatever is read can be written and read again.
-/

namespace CedarSchema

open Text

/-- A text that is read as one comment, namely itself. -/
def IsComment (text : String) : Prop :=
  ∃ t e : Token, tokenize text = .ok [t, e] ∧ t.lexeme = .comment text ∧ e.lexeme = .eof

/-! ## Runs of characters -/

section

variable {p : Char → Bool} {run rest : List Char}

theorem takeWhile_append_rest (h : ∀ c ∈ run, p c = true) (hr : ∀ c ∈ rest.head?, p c = false) :
    (run ++ rest).takeWhile p = run := by
  rw [List.takeWhile_append_of_pos h]
  cases rest with
  | nil => simp
  | cons c r => simp [hr c rfl]

theorem dropWhile_append_rest (h : ∀ c ∈ run, p c = true) (hr : ∀ c ∈ rest.head?, p c = false) :
    (run ++ rest).dropWhile p = rest := by
  rw [List.dropWhile_append_of_pos h]
  cases rest with
  | nil => rfl
  | cons c r => simp [hr c rfl]

end

namespace Text

theorem trimEnd_cons_or (c : Char) (cs : List Char) :
    trimEnd (c :: cs) = c :: trimEnd cs ∨ (trimEnd (c :: cs) = [] ∧ isWhiteSpace c = true) := by
  rw [trimEnd]
  split
  · rename_i h
    cases hc : isWhiteSpace c
    · simp [h]
    · simp
  · simp_all

theorem trimEnd_cons {c : Char} (hc : isWhiteSpace c = false) (cs : List Char) :
    trimEnd (c :: cs) = c :: trimEnd cs := by
  rcases trimEnd_cons_or c cs with h | ⟨-, h⟩
  · exact h
  · rw [hc] at h
    cases h

theorem trimEnd_trimEnd (cs : List Char) : trimEnd (trimEnd cs) = trimEnd cs := by
  induction cs with
  | nil => rfl
  | cons c cs ih =>
    rcases trimEnd_cons_or c cs with h | ⟨h, -⟩
    · rw [h]
      rcases trimEnd_cons_or c (trimEnd cs) with h' | ⟨h', hc⟩
      · rw [h', ih]
      · -- only white space is trimmed to nothing
        rw [trimEnd, ih] at h'
        split at h' <;> simp_all [trimEnd]
    · rw [h]
      rfl

theorem trimEnd_sublist (cs : List Char) : (trimEnd cs).Sublist cs := by
  induction cs with
  | nil => exact .slnil
  | cons c cs ih =>
    rcases trimEnd_cons_or c cs with h | ⟨h, -⟩
    · rw [h]
      exact ih.cons_cons c
    · rw [h]
      exact List.nil_sublist _

end Text

/-! ## Readable lexemes -/

namespace Lexeme

/-- Whether the text of a lexeme has the form that its kind asks for. -/
def Readable : Lexeme → Prop
  | ident name => isIdent name = true
  | comment text => IsComment text
  | str _ => True
  | punct _ => True
  | eof => False

/-- Whether a text may stand directly behind a lexeme without becoming part of it. A comment ends
where its line does. -/
def EndsBefore : Lexeme → List Char → Prop
  | ident _, rest => ∀ c ∈ rest.head?, isIdentRest c = false
  | comment _, rest => ∀ c ∈ rest.head?, c = '\n'
  | punct .colon, rest => rest.head? ≠ some ':'
  | _, _ => True

end Lexeme

namespace Lexer

/-! ## Identifiers -/

theorem scan_identStart {c : Char} (hc : isIdentStart c = true) (r : List Char) :
    scan (c :: r) =
      let name := c :: r.takeWhile isIdentRest
      ⟨.ok (.ident (String.ofList name)), name, r.dropWhile isIdentRest⟩ := by
  have h1 : c ≠ '/' := by rintro rfl; simp [isIdentStart] at hc
  have h2 : c ≠ '"' := by rintro rfl; simp [isIdentStart] at hc
  unfold scan
  split
  · simp_all
  · simp_all
  · simp_all
  · simp_all
  · rename_i heq
    cases heq
    rw [if_pos hc]

theorem scan_ident {name rest : List Char} (hn : isIdentChars name = true)
    (hr : ∀ c ∈ rest.head?, isIdentRest c = false) :
    scan (name ++ rest) = ⟨.ok (.ident (String.ofList name)), name, rest⟩ := by
  cases name with
  | nil => cases hn
  | cons c r =>
    simp only [isIdentChars, Bool.and_eq_true, List.all_eq_true] at hn
    rw [List.cons_append, scan_identStart hn.1, takeWhile_append_rest hn.2 hr,
      dropWhile_append_rest hn.2 hr]

/-! ## Comments -/

theorem commentBody_ne_nil {cs body rest : List Char} (h : commentBody cs = some (body, rest)) :
    body ≠ [] := by
  fun_induction commentBody cs generalizing body rest with
  | case1 r => cases h; simp
  | case2 c r _ _ =>
    obtain ⟨⟨b, r'⟩, -, he⟩ := Option.map_eq_some_iff.1 h
    cases he
    simp
  | case3 => cases h

/-- The body of a comment is found again whatever stands behind it. -/
theorem commentBody_append_rest {cs body rest : List Char}
    (h : commentBody cs = some (body, rest)) (rest' : List Char) :
    commentBody (body ++ rest') = some (body, rest') := by
  fun_induction commentBody cs generalizing body rest with
  | case1 r =>
    cases h
    rw [List.cons_append, List.cons_append, List.nil_append, commentBody]
  | case2 c r hne ih =>
    obtain ⟨⟨b, r'⟩, hb, he⟩ := Option.map_eq_some_iff.1 h
    cases he
    rw [List.cons_append, commentBody, ih hb]
    · rfl
    · rintro t rfl ht
      obtain ⟨d, b', rfl⟩ := List.exists_cons_of_ne_nil (commentBody_ne_nil hb)
      rw [List.cons_append] at ht
      cases ht
      exact hne _ rfl (commentBody_append hb).symm
  | case3 => cases h

/-- A line comment runs to the end of its line and loses the white space before it. -/
theorem scan_line (r : List Char) :
    scan ('/' :: '/' :: r) =
      let line := '/' :: '/' :: r.takeWhile (· ≠ '\n')
      ⟨.ok (.comment (String.ofList (trimEnd line))), line, r.dropWhile (· ≠ '\n')⟩ := by
  rw [scan]

theorem scan_block {r body rest : List Char} (h : commentBody r = some (body, rest)) :
    scan ('/' :: '*' :: r) =
      ⟨.ok (.comment (String.ofList ('/' :: '*' :: body))), '/' :: '*' :: body, rest⟩ := by
  rw [scan, h]

/-- The two forms of a comment that is read as itself. -/
inductive CommentForm : List Char → Prop
  | line (r : List Char) (hr : '\n' ∉ r) (ht : trimEnd r = r) : CommentForm ('/' :: '/' :: r)
  | block (body : List Char) (hb : commentBody body = some (body, [])) :
    CommentForm ('/' :: '*' :: body)

theorem trimEnd_line (r : List Char) : trimEnd ('/' :: '/' :: r) = '/' :: '/' :: trimEnd r := by
  rw [trimEnd_cons (by decide), trimEnd_cons (by decide)]

theorem CommentForm.scan_append {cs rest : List Char} (h : CommentForm cs)
    (hr : ∀ c ∈ rest.head?, c = '\n') :
    scan (cs ++ rest) = ⟨.ok (.comment (String.ofList cs)), cs, rest⟩ := by
  cases h with
  | line r hn ht =>
    have hall : ∀ c ∈ r, decide (c ≠ '\n') = true := by
      intro c hc
      rw [decide_eq_true_eq]
      rintro rfl
      exact hn hc
    have hend : ∀ c ∈ rest.head?, decide (c ≠ '\n') = false := by
      intro c hc
      simpa using hr c hc
    rw [List.cons_append, List.cons_append, scan_line]
    simp only [takeWhile_append_rest hall hend, dropWhile_append_rest hall hend, trimEnd_line, ht]
  | block body hb =>
    rw [List.cons_append, List.cons_append, scan_block (commentBody_append_rest hb rest)]

theorem commentForm_of_scan {cs : List Char} {text : String}
    (h : (scan cs).value = .ok (.comment text)) : CommentForm text.toList := by
  unfold scan at h
  split at h
  · cases h
  · rename_i r
    cases h
    rw [String.toList_ofList, trimEnd_line]
    refine .line _ (fun hn => ?_) (trimEnd_trimEnd _)
    have := List.mem_takeWhile_imp ((trimEnd_sublist _).subset hn)
    simp at this
  · split at h
    · rename_i hb
      cases h
      rw [String.toList_ofList]
      refine .block _ ?_
      have := commentBody_append_rest hb []
      rwa [List.append_nil] at this
    · cases h
  · dsimp only at h
    split at h <;> cases h
  · split at h
    · cases h
    · split at h <;> cases h

/-! ## All lexemes -/

theorem scan_quote (cs rest : List Char) :
    scan (quoteChars cs ++ rest) = ⟨.ok (.str (String.ofList cs)), quoteChars cs, rest⟩ := by
  have h : quoteChars cs ++ rest = '"' :: (cs.flatMap encodeChar ++ '"' :: rest) := by
    simp [quoteChars]
  rw [h, scan, stringBody_encode]
  rfl

theorem scan_punct {p : Punct} {rest : List Char} (h : (Lexeme.punct p).EndsBefore rest) :
    scan (p.chars ++ rest) = ⟨.ok (.punct p), p.chars, rest⟩ := by
  cases p with
  | colon =>
    have h : rest.head? ≠ some ':' := h
    simp [Punct.chars, scan, isIdentStart, punctAt, h]
  | _ => simp [Punct.chars, scan, isIdentStart, punctAt]

/-- A blank starts no token. -/
theorem scan_blank {c : Char} (hc : isBlank c = true) (r : List Char) (l : Lexeme) :
    (scan (c :: r)).value ≠ .ok l := by
  simp only [isBlank, Bool.or_eq_true, decide_eq_true_eq] at hc
  rcases hc with ((rfl | rfl) | rfl) | rfl <;> simp [scan, isIdentStart, punctAt]

theorem isIdentChars_of_takeWhile {c : Char} (hc : isIdentStart c = true) (r : List Char) :
    isIdentChars (c :: r.takeWhile isIdentRest) = true := by
  simp only [isIdentChars, hc, Bool.true_and, List.all_eq_true]
  exact fun _ => List.mem_takeWhile_imp

end Lexer

/-! ## One step of reading -/

namespace Cursor

/-- In front of a token there are no blanks to skip. -/
theorem next_of_scan {cs rest : List Char} {pos : Position} {l : Lexeme}
    (h : Lexer.scan (cs ++ rest) = ⟨.ok l, cs, rest⟩) (hl : l ≠ .eof) :
    next ⟨cs ++ rest, pos⟩ = (.ok ⟨l, pos, pos.afterAll cs⟩, ⟨rest, pos.afterAll cs⟩) := by
  have hne : cs ≠ [] := by
    have := Lexer.scan_used_ne_nil (congrArg Lexer.Scan.value h) hl
    rwa [h] at this
  obtain ⟨c, r, rfl⟩ := List.exists_cons_of_ne_nil hne
  have hb : isBlank c = false := by
    rw [Bool.eq_false_iff]
    exact fun hb => Lexer.scan_blank hb _ l (congrArg Lexer.Scan.value h)
  have hs : skipBlanks ⟨c :: r ++ rest, pos⟩ = ⟨c :: r ++ rest, pos⟩ := by
    simp [skipBlanks, hb, Position.afterAll_nil]
  simp only [next, hs, h]

theorem next_nil (pos : Position) : next ⟨[], pos⟩ = (.ok ⟨.eof, pos, pos⟩, ⟨[], pos⟩) := rfl

theorem next_blanks {bs : List Char} (hb : ∀ c ∈ bs, isBlank c = true) (rest : List Char)
    (pos : Position) : next ⟨bs ++ rest, pos⟩ = next ⟨rest, pos.afterAll bs⟩ := by
  have hs : skipBlanks ⟨bs ++ rest, pos⟩ = skipBlanks ⟨rest, pos.afterAll bs⟩ := by
    simp only [skipBlanks, List.dropWhile_append_of_pos hb, List.takeWhile_append_of_pos hb,
      Position.afterAll_append]
  simp only [next, hs]

end Cursor

namespace TokenStream

variable {c c' : Cursor}

theorem ofCursor_of_token {t : Token} (h : c.next = (.ok t, c')) (ht : t.lexeme ≠ .eof) :
    ofCursor c = .token t (ofCursor c') := by
  rw [ofCursor]
  split
  · simp_all
  · rename_i heq
    rw [h] at heq
    cases heq
    rw [dif_neg ht]

theorem ofCursor_of_eof {t : Token} (h : c.next = (.ok t, c')) (ht : t.lexeme = .eof) :
    ofCursor c = .eof t.start := by
  rw [ofCursor]
  split
  · simp_all
  · rename_i heq
    rw [h] at heq
    cases heq
    rw [dif_pos ht]

theorem ofCursor_of_error {pos : Position} {e : LexError} (h : c.next = (.error (pos, e), c')) :
    ofCursor c = .failed pos e := by
  rw [ofCursor]
  split
  · rename_i heq
    rw [h] at heq
    cases heq
    rfl
  · simp_all

/-- The tokens ahead depend on the next attempt only. -/
theorem ofCursor_congr (h : c.next = c'.next) : ofCursor c = ofCursor c' := by
  obtain ⟨r, c₁, h₁⟩ : ∃ r c₁, c.next = (r, c₁) := ⟨_, _, rfl⟩
  have h₂ := h.symm.trans h₁
  cases r with
  | error e =>
    obtain ⟨pos, e⟩ := e
    rw [ofCursor_of_error h₁, ofCursor_of_error h₂]
  | ok t =>
    by_cases ht : t.lexeme = .eof
    · rw [ofCursor_of_eof h₁ ht, ofCursor_of_eof h₂ ht]
    · rw [ofCursor_of_token h₁ ht, ofCursor_of_token h₂ ht]

end TokenStream

/-! ## Comments as whole texts -/

theorem Lexeme.eof_not_readable {l : Lexeme} (h : l.Readable) : l ≠ .eof := by
  rintro rfl
  exact h

/-- A lexeme that stands alone is the only token of its text. -/
theorem tokenize_of_scan {text : String} {l : Lexeme} (hl : l ≠ .eof)
    (h : Lexer.scan text.toList = ⟨.ok l, text.toList, []⟩) :
    let stop := Position.start.afterAll text.toList
    tokenize text = .ok [⟨l, .start, stop⟩, ⟨.eof, stop, stop⟩] := by
  have hs : Lexer.scan (text.toList ++ []) = ⟨.ok l, text.toList, []⟩ := by
    rw [List.append_nil, h]
  have hn := @Cursor.next_of_scan _ _ .start _ hs hl
  rw [List.append_nil] at hn
  rw [tokenize, TokenStream.ofText, Cursor.ofText, TokenStream.ofCursor_of_token hn hl,
    TokenStream.ofCursor_of_eof (Cursor.next_nil _) rfl]
  rfl

theorem Cursor.scan_of_next {c c' : Cursor} {t : Token} (h : c.next = (.ok t, c')) :
    (Lexer.scan c.skipBlanks.rest).value = .ok t.lexeme := by
  simp only [next] at h
  split at h <;> cases h
  assumption

theorem isComment_iff {text : String} : IsComment text ↔ Lexer.CommentForm text.toList := by
  constructor
  · rintro ⟨t, e, h, ht, -⟩
    rw [tokenize, TokenStream.ofText] at h
    obtain ⟨r, c', hn⟩ : ∃ r c', (Cursor.ofText text).next = (r, c') := ⟨_, _, rfl⟩
    cases r with
    | error r =>
      rw [TokenStream.ofCursor_of_error hn] at h
      cases h
    | ok t' =>
      by_cases hl : t'.lexeme = .eof
      · rw [TokenStream.ofCursor_of_eof hn hl] at h
        cases h
      · rw [TokenStream.ofCursor_of_token hn hl, TokenStream.toExcept] at h
        cases hs : (TokenStream.ofCursor c').toExcept with
        | error _ =>
          rw [hs] at h
          cases h
        | ok ts =>
        rw [hs] at h
        cases h
        exact Lexer.commentForm_of_scan (ht ▸ Cursor.scan_of_next hn)
  · intro h
    have hs := @Lexer.CommentForm.scan_append _ [] h (by simp)
    rw [List.append_nil, String.ofList_toList] at hs
    exact ⟨_, _, tokenize_of_scan (by simp) hs, rfl, rfl⟩

/-! ## Reading back -/

namespace Lexer

/-- A readable lexeme is read off every text that it ends before. -/
theorem scan_source {l : Lexeme} {rest : List Char} (hl : l.Readable) (hr : l.EndsBefore rest) :
    scan (l.source.toList ++ rest) = ⟨.ok l, l.source.toList, rest⟩ := by
  cases l with
  | ident name =>
    have h := @scan_ident name.toList rest hl hr
    rwa [String.ofList_toList] at h
  | str value =>
    have h := scan_quote value.toList rest
    rw [String.ofList_toList] at h
    simpa [Lexeme.source, quote] using h
  | comment text =>
    have h := (isComment_iff.1 hl).scan_append hr
    rwa [String.ofList_toList] at h
  | punct p =>
    have h := scan_punct hr
    simpa [Lexeme.source, Lexeme.text, Punct.text] using h
  | eof => exact hl.elim

/-- Whatever a text yields is readable. -/
theorem readable_of_scan {cs : List Char} {l : Lexeme} (h : (scan cs).value = .ok l)
    (hl : l ≠ .eof) : l.Readable := by
  cases l with
  | ident name =>
    unfold scan at h
    split at h
    · cases h
    · cases h
    · split at h <;> cases h
    · dsimp only at h
      split at h <;> cases h
    · split at h
      · rename_i hc
        cases h
        simpa [Lexeme.Readable, isIdent] using isIdentChars_of_takeWhile hc _
      · split at h <;> cases h
  | comment text => exact isComment_iff.2 (commentForm_of_scan h)
  | str value => trivial
  | punct p => trivial
  | eof => exact absurd rfl hl

end Lexer

namespace TokenStream

theorem ofCursor_source {l : Lexeme} {rest : List Char} (hl : l.Readable) (hr : l.EndsBefore rest)
    (pos : Position) :
    let stop := pos.afterAll l.source.toList
    ofCursor ⟨l.source.toList ++ rest, pos⟩ = .token ⟨l, pos, stop⟩ (ofCursor ⟨rest, stop⟩) :=
  ofCursor_of_token (Cursor.next_of_scan (Lexer.scan_source hl hr) (Lexeme.eof_not_readable hl))
    (Lexeme.eof_not_readable hl)

theorem ofCursor_blanks {bs : List Char} (hb : ∀ c ∈ bs, isBlank c = true) (rest : List Char)
    (pos : Position) : ofCursor ⟨bs ++ rest, pos⟩ = ofCursor ⟨rest, pos.afterAll bs⟩ :=
  ofCursor_congr (Cursor.next_blanks hb rest pos)

theorem ofCursor_nil (pos : Position) : ofCursor ⟨[], pos⟩ = .eof pos :=
  ofCursor_of_eof (Cursor.next_nil pos) rfl

end TokenStream

end CedarSchema
