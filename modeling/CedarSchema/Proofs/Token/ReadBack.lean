import CedarSchema.Schema.Printer
import CedarSchema.Proofs.Token.Progress

/-
  Names and strings are read back where they stand. Whatever comes before and behind it, the literal
  written for a text is read as one token that takes the literal and nothing else; a bare name is as
  well, if no character of an identifier comes directly behind (`ReadBack`). Both stay on one line,
  and a literal holds no character that a reader cannot see. The bare names are those texts that are
  one identifier by themselves.
-/

namespace CedarSchema

open Text

/-- Wherever a text goes on with `source` and then `rest`, the next token says `l`. It spans all of
`source` and nothing else, and it does not leave its line. -/
def ReadBack (l : Lexeme) (source : String) (rest : List Char) : Prop :=
  ∀ (text : String) (c : Cursor), c.StandsIn text → c.rest = source.toList ++ rest →
    ∃ t : Token, c.next = (.ok t, ⟨rest, t.stop⟩) ∧ t.lexeme = l ∧ t.start = c.pos ∧
      slice text t.start.offset t.stop.offset = source ∧ t.stop.line = t.start.line

/-- The characters that end a line wherever they stand: line feed, line tabulation, form feed,
carriage return, next line, and the line and paragraph separators. -/
def lineBreaks : List Char := ['\n', '\x0B', '\x0C', '\r', '\u0085', '\u2028', '\u2029']

/-! ## Characters of a literal -/

namespace Text

theorem needsEscape_of_isControl {c : Char} (h : isControl c = true) : needsEscape c = true := by
  simp [needsEscape, h]

theorem needsEscape_of_mem_lineBreaks : ∀ c ∈ lineBreaks, needsEscape c = true :=
  List.all_eq_true.1 (by decide)

/-- The visible characters of ASCII and the blank stand for themselves. -/
theorem needsEscape_eq_false {c : Char} (hlow : 0x20 ≤ c.toNat) (hhigh : c.toNat < 0x7F) :
    needsEscape c = false := by
  simp only [needsEscape, isControl, Bool.or_eq_false_iff, Bool.and_eq_false_iff,
    decide_eq_false_iff_not]
  omega

theorem needsEscape_eq_false_of_isHexDigit {c : Char} (h : Lexer.isHexDigit c = true) :
    needsEscape c = false := by
  have hrange : 0x20 ≤ c.toNat ∧ c.toNat < 0x7F := by
    simp only [Lexer.isHexDigit, Char.isDigit, Bool.or_eq_true, Bool.and_eq_true,
      decide_eq_true_eq, Char.le_def, UInt32.le_iff_toNat_le, ge_iff_le] at h
    simp only [Char.toNat]
    have : ('0'.val.toNat = 48 ∧ '9'.val.toNat = 57) ∧ ('a'.val.toNat = 97 ∧ 'f'.val.toNat = 102) ∧
        'A'.val.toNat = 65 ∧ 'F'.val.toNat = 70 := by decide
    omega
  exact needsEscape_eq_false hrange.1 hrange.2

theorem needsEscape_eq_false_of_mem_hexEscape {c d : Char} (h : d ∈ hexEscape c) :
    needsEscape d = false := by
  simp only [hexEscape, List.mem_cons, List.mem_append, List.not_mem_nil, or_false] at h
  rcases h with rfl | rfl | rfl | h | rfl
  · decide
  · decide
  · decide
  · exact needsEscape_eq_false_of_isHexDigit (Lexer.isHexDigit_of_mem_hexDigits h)
  · decide

/-- Whatever is flagged is written as an escape, and no escape holds a flagged character. -/
theorem needsEscape_eq_false_of_mem_encodeChar {c d : Char} (h : d ∈ encodeChar c) :
    needsEscape d = false := by
  obtain ⟨n, heq, hescape⟩ | heq | ⟨heq, hc, -⟩ := Lexer.encodeChar_cases c
  · rw [heq] at h
    obtain rfl | rfl := List.mem_pair.1 h
    · decide
    · cases hescape <;> decide
  · rw [heq] at h
    exact needsEscape_eq_false_of_mem_hexEscape h
  · rw [heq] at h
    rwa [List.mem_singleton.1 h]

theorem needsEscape_eq_false_of_mem_quote {s : String} {c : Char} (h : c ∈ (quote s).toList) :
    needsEscape c = false := by
  rw [quote, String.toList_ofList, quoteChars] at h
  simp only [List.mem_cons, List.mem_append, List.mem_flatMap, List.not_mem_nil, or_false] at h
  rcases h with rfl | ⟨d, -, h⟩ | rfl
  · decide
  · exact needsEscape_eq_false_of_mem_encodeChar h
  · decide

theorem lineFeed_not_mem_of_isIdent {s : String} (h : isIdent s = true) : '\n' ∉ s.toList := by
  intro hmem
  unfold isIdent at h
  cases hs : s.toList with
  | nil =>
    rw [hs] at hmem
    cases hmem
  | cons c r =>
    rw [hs] at h hmem
    simp only [isIdentChars, Bool.and_eq_true, List.all_eq_true] at h
    rcases List.mem_cons.1 hmem with rfl | hmem
    · exact absurd h.1 (by decide)
    · exact absurd (h.2 _ hmem) (by decide)

end Text

/-! ## Reading in any context -/

/-- A cursor stands in front of what it is about to read. -/
theorem Cursor.StandsIn.slice_afterAll {c : Cursor} {text : String} {span rest : List Char}
    (h : c.StandsIn text) (hrest : c.rest = span ++ rest) :
    slice text c.pos.offset (c.pos.afterAll span).offset = String.ofList span := by
  obtain ⟨front, rfl, hpos⟩ := h
  rw [hpos, ← Position.afterAll_append, Position.offset_afterAll_start,
    Position.offset_afterAll_start, hrest, ← List.append_assoc, slice_append]

theorem readBack_of_scan {l : Lexeme} {source : String} {rest : List Char} (hl : l ≠ .eof)
    (hline : '\n' ∉ source.toList)
    (hscan : Lexer.scan (source.toList ++ rest) = ⟨.ok l, source.toList, rest⟩) :
    ReadBack l source rest := by
  intro text c hc hrest
  have hnext : c.next = (.ok ⟨l, c.pos, c.pos.afterAll source.toList⟩,
      ⟨rest, c.pos.afterAll source.toList⟩) := by
    have := @Cursor.next_of_scan _ _ c.pos _ hscan hl
    rwa [← hrest] at this
  refine ⟨_, hnext, rfl, rfl, ?_, Position.line_afterAll_of_not_mem hline c.pos⟩
  rw [hc.slice_afterAll hrest, String.ofList_toList]

theorem readBack_quote (s : String) (rest : List Char) : ReadBack (.str s) (quote s) rest := by
  refine readBack_of_scan (by simp) (fun h => ?_) (Lexer.scan_source (l := .str s) trivial trivial)
  exact absurd (needsEscape_eq_false_of_mem_quote h) (by decide)

theorem readBack_ident {s : String} (hs : isIdent s = true) {rest : List Char}
    (hrest : (Lexeme.ident s).EndsBefore rest) : ReadBack (.ident s) s rest :=
  readBack_of_scan (by simp) (lineFeed_not_mem_of_isIdent hs)
    (Lexer.scan_source (l := .ident s) hs hrest)

/-- The identifiers are the texts that are one identifier token by themselves. -/
theorem isIdent_iff_tokenize {s : String} : isIdent s = true ↔
    ∃ t e : Token, tokenize s = .ok [t, e] ∧ t.lexeme = .ident s ∧ e.lexeme = .eof := by
  constructor
  · intro h
    have hscan := @Lexer.scan_source (.ident s) [] h (by simp [Lexeme.EndsBefore])
    rw [List.append_nil] at hscan
    exact ⟨_, _, tokenize_of_scan (by simp) hscan, rfl, rfl⟩
  · rintro ⟨t, e, h, ht, -⟩
    have htiled := (TokenStream.ends_tiled (Cursor.ofText s) [] rfl).of_ok h
    obtain ⟨front, span, behind, -, -, -, hstands⟩ := htiled.exists_span t (by simp)
    rw [ht] at hstands
    exact hstands.2.1

/-- A name is laid out as one lexeme, and the text of that lexeme is the name. -/
theorem Piece.readBack_name (s : String) : ∃ l, Piece.name s = .lexeme l ∧ l.text = s ∧
    ∀ rest, l.EndsBefore rest → ReadBack l (Piece.name s).text rest := by
  unfold Piece.name
  split
  · rename_i h
    exact ⟨.ident s, rfl, rfl, fun rest hrest => readBack_ident h hrest⟩
  · exact ⟨.str s, rfl, rfl, fun rest _ => readBack_quote s rest⟩

/-- Strings and names are read back exactly, in any context: a literal before any text at all, a
bare name before any text that does not go on with a character of an identifier. -/
theorem strings_and_names_read_back (s : String) :
    (∀ rest, ReadBack (.str s) (quote s) rest) ∧
    (∀ c ∈ (quote s).toList, isControl c = false ∧ c ∉ lineBreaks ∧ needsEscape c = false) ∧
    (isIdent s = true ↔
      ∃ t e : Token, tokenize s = .ok [t, e] ∧ t.lexeme = .ident s ∧ e.lexeme = .eof) ∧
    (isIdent s = true → ∀ rest : List Char, (∀ c ∈ rest.head?, isIdentRest c = false) →
      ReadBack (.ident s) s rest) ∧
    (∃ l, Piece.name s = .lexeme l ∧ l.text = s ∧
      ∀ rest, l.EndsBefore rest → ReadBack l (Piece.name s).text rest) := by
  refine ⟨readBack_quote s, fun c hc => ?_, isIdent_iff_tokenize,
    fun hs rest hrest => readBack_ident hs hrest, Piece.readBack_name s⟩
  have hflag := needsEscape_eq_false_of_mem_quote hc
  refine ⟨Bool.eq_false_iff.2 fun h => ?_, fun h => ?_, hflag⟩
  · rw [needsEscape_of_isControl h] at hflag
    cases hflag
  · rw [needsEscape_of_mem_lineBreaks c h] at hflag
    cases hflag

/-- An identifier in front of a blank, and a text of two lines in front of another literal. -/
theorem user_and_two_lines_read_back :
    isIdent "User" = true ∧ ReadBack (.ident "User") "User" [' ', '{'] ∧
      ReadBack (.str "a\n\u00adb") "\"a\\n\\u\x7bad\x7db\"" ['"'] := by
  have hquote : quote "a\n\u00adb" = "\"a\\n\\u\x7bad\x7db\"" := by decide +kernel
  have hident : isIdent "User" = true := by decide
  refine ⟨hident, (strings_and_names_read_back "User").2.2.2.1 hident _ ?_, ?_⟩
  · rintro _ ⟨⟩
    decide
  · have h := (strings_and_names_read_back "a\n\u00adb").1 ['"']
    rwa [hquote] at h

end CedarSchema
