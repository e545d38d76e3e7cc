import CedarSchema.Proofs.Outcome
import CedarSchema.Proofs.Token.Lexeme
import CedarSchema.Proofs.Token.Place

/-
  The tokens of a text tile it. Each token stands where its positions say, in the way its kind asks
  for (`Lexeme.Stands`), and what is left between the tokens is blank. Reading goes from the front
  to the end, so a tiling is built token by token: what is before a place is text read already, what
  is ahead is tiled by the tokens still to come (`Tiled`). In offsets that count bytes the result is
  `tiles_of_tokenize`.
-/

namespace CedarSchema

open Text
open String (utf8Len)

/-! ## Lexemes in a text -/

/-- A line comment runs to the end of its line; its text is all of it but the white space last. -/
structure LineSpan (text span behind : List Char) : Prop where
  opened : ['/', '/'] <+: span
  trimmed : ∃ blanks, span = text ++ blanks ∧ ∀ c ∈ blanks, isWhiteSpace c = true
  tight : ∀ c ∈ text.getLast?, isWhiteSpace c = false
  oneLine : '\n' ∉ span
  toLineEnd : ∀ c ∈ behind.head?, c = '\n'

structure BlockSpan (text span : List Char) : Prop where
  opened : ['/', '*'] <+: span
  closed : ['*', '/'] <:+ span
  whole : text = span

/-- How a lexeme stands in a text: which characters it spans, and what may be behind them. -/
def Lexeme.Stands : Lexeme → (span behind : List Char) → Prop
  | ident name, span, behind =>
    span = name.toList ∧ isIdent name = true ∧ ∀ c ∈ behind.head?, isIdentRest c = false
  | str _, span, _ => ∃ body, span = '"' :: (body ++ ['"'])
  | comment text, span, behind =>
    LineSpan text.toList span behind ∨ BlockSpan text.toList span
  | punct p, span, behind => span = p.chars ∧ (p = .colon → behind.head? ≠ some ':')
  | eof, span, behind => span = [] ∧ behind = []

theorem exists_trimEnd_append (cs : List Char) :
    ∃ blanks, cs = trimEnd cs ++ blanks ∧ ∀ c ∈ blanks, isWhiteSpace c = true := by
  induction cs with
  | nil => exact ⟨[], rfl, List.forall_mem_nil _⟩
  | cons c cs ih =>
    obtain ⟨blanks, hcs, hblanks⟩ := ih
    obtain h | ⟨h, hc⟩ := trimEnd_cons_or c cs
    · refine ⟨blanks, ?_, hblanks⟩
      rw [h, List.cons_append, ← hcs]
    · -- all behind `c` is white space as well, since nothing of it is kept
      refine ⟨c :: cs, by rw [h, List.nil_append], List.forall_mem_cons.2 ⟨hc, ?_⟩⟩
      have hnil : trimEnd cs = [] := by
        unfold trimEnd at h
        split at h
        · assumption
        · cases h
      rw [hnil, List.nil_append] at hcs
      rw [hcs]
      exact hblanks

theorem isWhiteSpace_getLast?_trimEnd (cs : List Char) :
    ∀ c ∈ (trimEnd cs).getLast?, isWhiteSpace c = false := by
  induction cs with
  | nil => intro c hc; cases hc
  | cons c cs ih =>
    unfold trimEnd
    split
    · cases hc : isWhiteSpace c
      · intro d hd
        cases hd
        exact hc
      · intro d hd
        cases hd
    · rename_i kept hkept
      obtain ⟨k, ks, hcons⟩ := List.exists_cons_of_ne_nil hkept
      rw [hcons] at ih ⊢
      rw [List.getLast?_cons_cons]
      exact ih

namespace Lexer

theorem lineSpan_takeWhile (r : List Char) :
    let line := '/' :: '/' :: r.takeWhile (· ≠ '\n')
    LineSpan (trimEnd line) line (r.dropWhile (· ≠ '\n')) where
  opened := List.prefix_append ['/', '/'] _
  trimmed := exists_trimEnd_append _
  tight := isWhiteSpace_getLast?_trimEnd _
  oneLine := by
    intro h
    have h : '\n' ∈ r.takeWhile (· ≠ '\n') := by simpa using h
    have := List.mem_takeWhile_imp h
    simp at this
  toLineEnd := by
    intro c hc
    have := List.head?_dropWhile_not (· ≠ '\n') r
    rw [Option.mem_def.1 hc] at this
    simpa using this

theorem suffix_of_commentBody {cs body rest : List Char}
    (h : commentBody cs = some (body, rest)) : ['*', '/'] <:+ body := by
  fun_induction commentBody cs generalizing body rest with
  | case1 r =>
    cases h
    exact List.suffix_refl _
  | case2 c r _ ih =>
    obtain ⟨⟨b, r'⟩, hb, he⟩ := Option.map_eq_some_iff.1 h
    cases he
    exact (ih hb).trans (List.suffix_cons c b)
  | case3 => cases h

theorem blockSpan_of_commentBody {r body rest : List Char}
    (h : commentBody r = some (body, rest)) :
    BlockSpan ('/' :: '*' :: body) ('/' :: '*' :: body) where
  opened := List.prefix_append ['/', '*'] body
  closed := (suffix_of_commentBody h).trans (List.suffix_append ['/', '*'] body)
  whole := rfl

/-- What is read of a literal ends with a quote. -/
theorem exists_of_stringBody {cs xs : List Char} (h : (stringBody cs).value = .ok xs) :
    ∃ body, (stringBody cs).used = body ++ ['"'] := by
  fun_induction stringBody cs generalizing xs with
  | case2 r => exact ⟨[], rfl⟩
  | case7 =>
    rename_i s used ih
    dsimp only at h
    split at h
    · rename_i ys hys
      obtain ⟨body, hbody⟩ := ih hys
      exact ⟨used ++ body, by rw [List.append_assoc, ← hbody]⟩
    · cases h
  | case8 =>
    rename_i c _ _ _ _ _ _ s ih
    dsimp only at h
    split at h
    · rename_i ys hys
      obtain ⟨body, hbody⟩ := ih hys
      exact ⟨c :: body, by rw [List.cons_append, ← hbody]⟩
    · cases h
  | case1 | case3 | case4 | case5 | case6 => cases h

/-- A single colon is read only where no other follows. -/
theorem punctAt_colon {c : Char} {r : List Char} (h : punctAt c r = some .colon) :
    r.head? ≠ some ':' := by
  unfold punctAt at h
  split at h <;> try cases h
  split at h
  · cases h
  · assumption

theorem scan_identStart_stands {c : Char} (hc : isIdentStart c = true) (r : List Char) :
    (Lexeme.ident (String.ofList (c :: r.takeWhile isIdentRest))).Stands
      (c :: r.takeWhile isIdentRest) (r.dropWhile isIdentRest) := by
  refine ⟨String.toList_ofList.symm, ?_, fun d hd => ?_⟩
  · unfold isIdent
    rw [String.toList_ofList]
    exact isIdentChars_of_takeWhile hc r
  · have := List.head?_dropWhile_not isIdentRest r
    rw [Option.mem_def.1 hd] at this
    simpa using this

/-- Whatever is read stands where it is read, in the way its kind asks for. -/
theorem stands_of_scan {cs : List Char} {l : Lexeme} (h : (scan cs).value = .ok l) :
    l.Stands (scan cs).used (scan cs).rest := by
  unfold scan at h ⊢
  split at h
  · cases h
    exact ⟨rfl, rfl⟩
  · rename_i r
    cases h
    refine .inl ?_
    rw [String.toList_ofList]
    exact lineSpan_takeWhile r
  · rename_i r
    split at h
    · rename_i hbody
      cases h
      refine .inr ?_
      rw [String.toList_ofList]
      exact blockSpan_of_commentBody hbody
    · cases h
  · rename_i r
    dsimp only at h ⊢
    split at h
    · rename_i value hvalue
      cases h
      obtain ⟨body, hbody⟩ := exists_of_stringBody hvalue
      exact ⟨body, by rw [hbody]⟩
    · cases h
    · cases h
  · rename_i c r _ _ _
    split at h
    · rename_i hc
      cases h
      simp only [if_pos hc]
      exact scan_identStart_stands hc r
    · rename_i hc
      split at h
      · rename_i p hp
        cases h
        simp only [if_neg hc]
        refine ⟨rfl, ?_⟩
        rintro rfl
        exact punctAt_colon hp
      · cases h

end Lexer

theorem Lexeme.Stands.ne_nil {l : Lexeme} {span behind : List Char} (h : l.Stands span behind)
    (hl : l ≠ .eof) : span ≠ [] := by
  cases l with
  | ident name =>
    obtain ⟨rfl, hident, -⟩ := h
    intro hnil
    unfold isIdent at hident
    rw [hnil] at hident
    cases hident
  | str value =>
    obtain ⟨body, rfl⟩ := h
    exact List.cons_ne_nil _ _
  | comment text =>
    intro hnil
    subst hnil
    obtain h | h := h
    · cases List.prefix_nil.1 h.opened
    · cases List.prefix_nil.1 h.opened
  | punct p =>
    obtain ⟨rfl, -⟩ := h
    exact Lexer.Punct.chars_ne_nil p
  | eof => exact absurd rfl hl

/-! ## Tilings -/

/-- Behind `before`, the text ahead is tiled by tokens with blanks between them. -/
inductive Tiled : (before ahead : List Char) → List Token → Prop
  | eof {before gap : List Char} (hgap : ∀ c ∈ gap, isBlank c = true) :
    Tiled before gap [⟨.eof, .afterAll .start (before ++ gap), .afterAll .start (before ++ gap)⟩]
  | token {before gap span ahead : List Char} {l : Lexeme} {tokens : List Token}
      (hgap : ∀ c ∈ gap, isBlank c = true) (hl : l ≠ .eof) (hspan : l.Stands span ahead)
      (htokens : Tiled (before ++ gap ++ span) ahead tokens) :
    Tiled before (gap ++ span ++ ahead)
      (⟨l, .afterAll .start (before ++ gap), .afterAll .start (before ++ gap ++ span)⟩ :: tokens)

namespace Cursor

/-- One step of reading: the blanks skipped, the characters of the token, and those left. -/
structure Step (before : List Char) (c : Cursor) (gap : List Char) (t : Token) (span : List Char)
    (c' : Cursor) : Prop where
  rest : c.rest = gap ++ span ++ c'.rest
  blank : ∀ ch ∈ gap, isBlank ch = true
  stands : t.lexeme.Stands span c'.rest
  start : t.start = Position.start.afterAll (before ++ gap)
  stop : t.stop = Position.start.afterAll (before ++ gap ++ span)
  pos : c'.pos = Position.start.afterAll (before ++ gap ++ span)

theorem step_of_next {c c' : Cursor} {t : Token} {before : List Char}
    (hpos : c.pos = Position.start.afterAll before) (h : c.next = (.ok t, c')) :
    ∃ gap span, c.Step before gap t span c' := by
  have hskip : c.skipBlanks.pos =
      Position.start.afterAll (before ++ c.rest.takeWhile isBlank) := by
    unfold skipBlanks
    rw [hpos, Position.afterAll_append]
  refine ⟨c.rest.takeWhile isBlank, (Lexer.scan c.skipBlanks.rest).used, ?_⟩
  unfold next at h
  dsimp only at h
  split at h
  · rename_i l hl
    cases h
    constructor
    · rw [List.append_assoc, Lexer.scan_append]
      exact List.takeWhile_append_dropWhile.symm
    · exact fun _ => List.mem_takeWhile_imp
    · exact Lexer.stands_of_scan hl
    · exact hskip
    · rw [Position.afterAll_append, ← hskip]
    · rw [Position.afterAll_append, ← hskip]
  · cases h

end Cursor

theorem TokenStream.ends_tiled (c : Cursor) (before : List Char)
    (hpos : c.pos = Position.start.afterAll before) :
    Ends (fun _ => True) (ofCursor c).toExcept (Tiled before c.rest) := by
  fun_induction ofCursor c generalizing before with
  | case1 => trivial
  | case2 c t c' h ht =>
    obtain ⟨gap, span, hstep⟩ := Cursor.step_of_next hpos h
    have hstands := hstep.stands
    rw [ht] at hstands
    obtain ⟨rfl, hbehind⟩ := hstands
    show Tiled before c.rest _
    rw [hstep.rest, hbehind, List.append_nil, List.append_nil, hstep.start]
    exact .eof hstep.blank
  | case3 c t c' h ht _ ih =>
    obtain ⟨gap, span, hstep⟩ := Cursor.step_of_next hpos h
    refine Ends.map ((ih _ hstep.pos).imp fun tokens htokens => ?_)
    obtain ⟨l, start, stop⟩ := t
    have hstart : start = _ := hstep.start
    have hstop : stop = _ := hstep.stop
    rw [hstep.rest, hstart, hstop]
    exact .token hstep.blank ht hstep.stands htokens

namespace Tiled

variable {before ahead : List Char} {tokens : List Token}

theorem offset_le (h : Tiled before ahead tokens) :
    ∀ t ∈ tokens, utf8Len before ≤ t.start.offset := by
  induction h with
  | eof hgap =>
    intro t ht
    rw [List.mem_singleton.1 ht, Position.offset_afterAll_start, String.utf8Len_append]
    omega
  | token hgap hl hspan htokens ih =>
    intro t ht
    obtain rfl | ht := List.mem_cons.1 ht
    · rw [Position.offset_afterAll_start, String.utf8Len_append]
      omega
    · have := ih t ht
      rw [String.utf8Len_append, String.utf8Len_append] at this
      omega

theorem ordered (h : Tiled before ahead tokens) :
    tokens.Pairwise fun t u => t.stop.offset ≤ u.start.offset := by
  induction h with
  | eof hgap => exact List.pairwise_singleton _ _
  | token hgap hl hspan htokens ih =>
    refine List.pairwise_cons.2 ⟨fun u hu => ?_, ih⟩
    rw [Position.offset_afterAll_start]
    exact htokens.offset_le u hu

/-- Every token stands somewhere in the text, and its positions are the places of its two ends. -/
theorem exists_span (h : Tiled before ahead tokens) : ∀ t ∈ tokens, ∃ front span behind,
    before ++ ahead = front ++ span ++ behind ∧ t.start = Position.start.afterAll front ∧
      t.stop = Position.start.afterAll (front ++ span) ∧ t.lexeme.Stands span behind := by
  induction h with
  | @eof before gap hgap =>
    intro t ht
    rw [List.mem_singleton.1 ht]
    refine ⟨before ++ gap, [], [], ?_, rfl, ?_, rfl, rfl⟩
    · rw [List.append_nil, List.append_nil]
    · rw [List.append_nil]
  | @token before gap span ahead l tokens hgap hl hspan htokens ih =>
    intro t ht
    obtain rfl | ht := List.mem_cons.1 ht
    · exact ⟨before ++ gap, span, ahead, by simp, rfl, rfl, hspan⟩
    · obtain ⟨front, s, behind, heq, hplace⟩ := ih t ht
      exact ⟨front, s, behind, by rw [← heq]; simp, hplace⟩

/-- The blanks in front of the first token. -/
theorem blank_first (h : Tiled before ahead tokens) : ∀ t ∈ tokens.head?,
    ∀ c ∈ (slice (String.ofList (before ++ ahead)) (utf8Len before) t.start.offset).toList,
      isBlank c = true := by
  cases h with
  | @eof _ gap hgap =>
    intro t ht
    cases ht
    have hslice := slice_append before ahead []
    rw [List.append_nil] at hslice
    rw [Position.offset_afterAll_start, hslice, String.toList_ofList]
    exact hgap
  | @token _ gap span ahead l tokens hgap hl hspan htokens =>
    intro t ht
    cases ht
    have hslice := slice_append before gap (span ++ ahead)
    rw [List.append_assoc, ← List.append_assoc gap] at hslice
    rw [Position.offset_afterAll_start, hslice, String.toList_ofList]
    exact hgap

theorem blank_between (h : Tiled before ahead tokens) : tokens.IsChain fun t u =>
    ∀ c ∈ (slice (String.ofList (before ++ ahead)) t.stop.offset u.start.offset).toList,
      isBlank c = true := by
  induction h with
  | eof hgap => exact List.IsChain.singleton _
  | @token before gap span ahead l tokens hgap hl hspan htokens ih =>
    have htext : before ++ (gap ++ span ++ ahead) = before ++ gap ++ span ++ ahead := by simp
    rw [htext]
    refine List.isChain_cons.2 ⟨fun u hu => ?_, ih⟩
    rw [Position.offset_afterAll_start]
    exact htokens.blank_first u hu

theorem exists_eof (h : Tiled before ahead tokens) : ∃ init pos,
    tokens = init ++ [⟨.eof, pos, pos⟩] ∧ pos.offset = utf8Len (before ++ ahead) ∧
      ∀ t ∈ init, t.lexeme ≠ .eof := by
  induction h with
  | @eof before gap hgap =>
    exact ⟨[], _, rfl, Position.offset_afterAll_start _, List.forall_mem_nil _⟩
  | @token before gap span ahead l tokens hgap hl hspan htokens ih =>
    obtain ⟨init, pos, htokens, hpos, hinit⟩ := ih
    refine ⟨_ :: init, pos, by rw [htokens, List.cons_append], ?_, ?_⟩
    · rw [hpos]
      simp
    · exact List.forall_mem_cons.2 ⟨hl, hinit⟩

end Tiled

/-! ## Tokens by their offsets -/

/-- The tokens cover the text. Offsets count bytes. -/
structure Tiles (text : String) (tokens : List Token) : Prop where
  /-- The end of the text is the last token and no other. -/
  last : ∃ init pos, tokens = init ++ [⟨.eof, pos, pos⟩] ∧ pos.offset = text.utf8ByteSize ∧
    ∀ t ∈ init, t.lexeme ≠ .eof
  ordered : tokens.Pairwise fun t u => t.stop.offset ≤ u.start.offset
  nonempty : ∀ t ∈ tokens, t.lexeme ≠ .eof → t.start.offset < t.stop.offset
  /-- Line, column and offset of both ends of a token are those of one place in the text. -/
  marks : ∀ t ∈ tokens, t.start.Marks text ∧ t.stop.Marks text
  blankFirst : ∀ t ∈ tokens.head?, ∀ c ∈ (slice text 0 t.start.offset).toList, isBlank c = true
  blankBetween : tokens.IsChain fun t u =>
    ∀ c ∈ (slice text t.stop.offset u.start.offset).toList, isBlank c = true
  stands : ∀ t ∈ tokens, t.lexeme.Stands (slice text t.start.offset t.stop.offset).toList
    (slice text t.stop.offset text.utf8ByteSize).toList

theorem utf8Len_pos {cs : List Char} (h : cs ≠ []) : 0 < utf8Len cs :=
  Nat.pos_of_ne_zero fun hzero => h (String.utf8Len_eq_zero.1 hzero)

/-- The tokens of a text cover it, with nothing but blanks between them. -/
theorem tiles_of_tokenize {text : String} {tokens : List Token}
    (h : tokenize text = .ok tokens) : Tiles text tokens := by
  have htiled : Tiled [] text.toList tokens :=
    (TokenStream.ends_tiled (Cursor.ofText text) [] rfl).of_ok h
  have htext : String.ofList ([] ++ text.toList) = text := by
    rw [List.nil_append, String.ofList_toList]
  have hfirst := htiled.blank_first
  have hbetween := htiled.blank_between
  rw [htext] at hfirst hbetween
  have hspan : ∀ t ∈ tokens, ∃ front span behind,
      text = String.ofList (front ++ span ++ behind) ∧
        t.start = Position.start.afterAll front ∧
        t.stop = Position.start.afterAll (front ++ span) ∧ t.lexeme.Stands span behind := by
    intro t ht
    obtain ⟨front, span, behind, heq, hplace⟩ := htiled.exists_span t ht
    exact ⟨front, span, behind, by rw [← heq, htext], hplace⟩
  constructor
  · obtain ⟨init, pos, htokens, hpos, hinit⟩ := htiled.exists_eof
    refine ⟨init, pos, htokens, ?_, hinit⟩
    rw [hpos, ← String.utf8ByteSize_ofList, htext]
  · exact htiled.ordered
  · intro t ht hl
    obtain ⟨front, span, behind, -, hstart, hstop, hstands⟩ := hspan t ht
    have hpos := utf8Len_pos (hstands.ne_nil hl)
    rw [hstart, hstop, Position.offset_afterAll_start, Position.offset_afterAll_start,
      String.utf8Len_append]
    omega
  · intro t ht
    obtain ⟨front, span, behind, htext, hstart, hstop, -⟩ := hspan t ht
    rw [htext, hstart, hstop]
    refine ⟨?_, Position.marks_afterAll (front ++ span) behind⟩
    rw [List.append_assoc]
    exact Position.marks_afterAll front (span ++ behind)
  · exact hfirst
  · exact hbetween
  · intro t ht
    obtain ⟨front, span, behind, htext, hstart, hstop, hstands⟩ := hspan t ht
    rw [hstart, hstop, Position.offset_afterAll_start, Position.offset_afterAll_start, htext,
      slice_append, slice_behind, String.toList_ofList, String.toList_ofList]
    exact hstands

/-- Comments over two lines and before blanks, and characters of two bytes. -/
theorem tiles_of_tokenize_comments :
    let text := "/* ü\n */ \"ß\" // é \t\n  a::"
    let tokens : List Token :=
      [⟨.comment "/* ü\n */", ⟨1, 1, 0⟩, ⟨2, 4, 9⟩⟩,
        ⟨.str "ß", ⟨2, 5, 10⟩, ⟨2, 8, 14⟩⟩,
        ⟨.comment "// é", ⟨2, 9, 15⟩, ⟨2, 15, 22⟩⟩,
        ⟨.ident "a", ⟨3, 3, 25⟩, ⟨3, 4, 26⟩⟩,
        ⟨.punct .doubleColon, ⟨3, 4, 26⟩, ⟨3, 6, 28⟩⟩,
        ⟨.eof, ⟨3, 6, 28⟩, ⟨3, 6, 28⟩⟩]
    tokenize text = .ok tokens ∧ Tiles text tokens := by
  intro text tokens
  have htokens : tokenize text = .ok tokens := by decide +kernel
  exact ⟨htokens, tiles_of_tokenize htokens⟩

theorem tokenize_blanks {cs : List Char} (h : ∀ c ∈ cs, isBlank c = true) :
    tokenize (String.ofList cs) = .ok [⟨.eof, .afterAll .start cs, .afterAll .start cs⟩] := by
  have hstream := TokenStream.ofCursor_blanks h [] .start
  rw [List.append_nil, TokenStream.ofCursor_nil] at hstream
  rw [tokenize, TokenStream.ofText, Cursor.ofText, String.toList_ofList, hstream]
  rfl

/-- A text of line feeds has one token, behind all of them. -/
theorem tokenize_lineFeeds (n : Nat) :
    let text := String.ofList (List.replicate n '\n')
    ∃ t, tokenize text = .ok [t] ∧ t.start.line = (1 + n) % 2 ^ 32 ∧
      1 + (slice text 0 t.start.offset).toList.count '\n' = 1 + n := by
  have hblank : ∀ c ∈ List.replicate n '\n', isBlank c = true := by
    intro c hc
    rw [List.eq_of_mem_replicate hc]
    rfl
  have hslice := slice_front (List.replicate n '\n') []
  rw [List.append_nil] at hslice
  refine ⟨_, tokenize_blanks hblank, ?_, ?_⟩
  · rw [Position.line_afterAll_start, lineBehind, List.count_replicate_self]
  · rw [Position.offset_afterAll_start, hslice, String.toList_ofList, List.count_replicate_self]

/-- The end of this text is on line `2 ^ 32`, and the counter of lines shows 0. -/
theorem tokenize_line_zero :
    let text := String.ofList (List.replicate (2 ^ 32 - 1) '\n')
    ∃ t, tokenize text = .ok [t] ∧ t.start.line = 0 ∧
      1 + (slice text 0 t.start.offset).toList.count '\n' = 2 ^ 32 :=
  tokenize_lineFeeds (2 ^ 32 - 1)

end CedarSchema
