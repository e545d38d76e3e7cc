import CedarSchema.Text.Identifier
import CedarSchema.Token

/-
  Reading tokens off a text. Each attempt to read one splits the text ahead into the characters it
  used up and those it left, and positions are computed from the characters used up. A failed
  attempt leaves the cursor where reading stopped, so that reading can go on from there.
-/

namespace CedarSchema

/-- Why no token can be read at a place. -/
inductive LexError
  | unterminatedComment
  | unterminatedString
  | unknownEscape (c : Char)
  /-- No brace after `\u`. -/
  | unicodeEscapeUnopened
  | unicodeEscapeUnterminated
  /-- Something other than one to six hexadecimal digits between the braces. -/
  | unicodeEscapeDigits
  /-- The digits name no character. -/
  | unicodeEscapeInvalid (digits : String)
  | unexpectedCharacter (c : Char)
  | invalidUtf8
  deriving DecidableEq, Repr

/-- The cause in words, without its position. -/
def LexError.message : LexError → String
  | unterminatedComment => "unterminated block comment"
  | unterminatedString => "unterminated string literal"
  | unknownEscape c => "unknown escape sequence '\\" ++ String.singleton c ++ "'"
  | unicodeEscapeUnopened => "invalid unicode escape: expected '\x7b' after '\\u'"
  | unicodeEscapeUnterminated => "unterminated unicode escape"
  | unicodeEscapeDigits => "invalid unicode escape: expected 1 to 6 hex digits"
  | unicodeEscapeInvalid digits => "invalid unicode escape '\\u\x7b" ++ digits ++ "\x7d'"
  | unexpectedCharacter c => "unexpected character " ++ Text.showChar c
  | invalidUtf8 => "invalid UTF-8 in source"

namespace Lexer

/-! ## Escapes and string literals -/

/-- A value read from the front of a text, the characters used up and those left. -/
structure Scan (α : Type) where
  value : α
  used : List Char
  rest : List Char

/-- A hexadecimal digit of either case. -/
def isHexDigit (c : Char) : Bool :=
  c.isDigit || ('a' ≤ c && c ≤ 'f') || ('A' ≤ c && c ≤ 'F')

/-- The value of a hexadecimal digit. -/
def hexDigitValue (c : Char) : Nat :=
  if c.isDigit then c.toNat - '0'.toNat
  else if 'a' ≤ c then c.toNat - 'a'.toNat + 10
  else c.toNat - 'A'.toNat + 10

/-- The number that hexadecimal digits write. -/
def hexValue (digits : List Char) : Nat :=
  digits.foldl (fun n c => 16 * n + hexDigitValue c) 0

/-- The character with code point `n`, if there is one. -/
def charOfCodePoint (n : Nat) : Option Char :=
  if h : n.isValidChar then some (Char.ofNatAux n h) else none

/-- The character that digits between braces name. -/
def unicodeValue (digits : List Char) : Except LexError Char :=
  match digits with
  | [] => .error (.unicodeEscapeInvalid "")
  | _ =>
    match charOfCodePoint (hexValue digits) with
    | some c => .ok c
    | none => .error (.unicodeEscapeInvalid (String.ofList digits))

/-- At most `n` hexadecimal digits at the front of a text, and what follows them. -/
def spanHex : Nat → List Char → List Char × List Char
  | n + 1, c :: r =>
    if isHexDigit c then
      let (ds, r') := spanHex n r
      (c :: ds, r')
    else ([], c :: r)
  | _, cs => ([], cs)

/-- What follows `\u`: hexadecimal digits in braces. -/
def unicodeEscape : List Char → Scan (Except LexError Char)
  | '{' :: cs =>
    let (digits, after) := spanHex 6 cs
    match after with
    | '}' :: r => ⟨unicodeValue digits, '{' :: (digits ++ ['}']), r⟩
    | [] => ⟨.error .unicodeEscapeUnterminated, '{' :: digits, []⟩
    | '\n' :: r => ⟨.error .unicodeEscapeUnterminated, '{' :: digits, '\n' :: r⟩
    | c :: r => ⟨.error .unicodeEscapeDigits, '{' :: digits, c :: r⟩
  | cs => ⟨.error .unicodeEscapeUnopened, [], cs⟩

/-- What follows a backslash, where `c` is the first character of it. -/
def escape (c : Char) (cs : List Char) : Scan (Except LexError Char) :=
  match c with
  | 'n' => ⟨.ok '\n', ['n'], cs⟩
  | 'r' => ⟨.ok '\r', ['r'], cs⟩
  | 't' => ⟨.ok '\t', ['t'], cs⟩
  | '0' => ⟨.ok '\x00', ['0'], cs⟩
  | '\\' => ⟨.ok '\\', ['\\'], cs⟩
  | '"' => ⟨.ok '"', ['"'], cs⟩
  | 'u' => let s := unicodeEscape cs; ⟨s.value, 'u' :: s.used, s.rest⟩
  | other => ⟨.error (.unknownEscape other), [other], cs⟩

theorem spanHex_append (n : Nat) (cs : List Char) : (spanHex n cs).1 ++ (spanHex n cs).2 = cs := by
  fun_induction spanHex n cs <;> simp_all

theorem unicodeEscape_append (cs : List Char) :
    (unicodeEscape cs).used ++ (unicodeEscape cs).rest = cs := by
  unfold unicodeEscape
  split
  · rename_i cs
    have h := spanHex_append 6 cs
    generalize spanHex 6 cs = p at h ⊢
    obtain ⟨digits, after⟩ := p
    dsimp only at h ⊢
    split <;> simp [← h]
  · rfl

theorem escape_append (c : Char) (cs : List Char) :
    (escape c cs).used ++ (escape c cs).rest = c :: cs := by
  unfold escape
  split <;> simp [unicodeEscape_append]

theorem escape_rest_length (c : Char) (cs : List Char) :
    (escape c cs).rest.length ≤ cs.length := by
  have h := congrArg List.length (escape_append c cs)
  have : (escape c cs).used ≠ [] := by unfold escape; split <;> simp
  have := List.length_pos_iff.mpr this
  simp only [List.length_append, List.length_cons] at h
  omega

/-- What follows the opening quote of a string literal, up to the closing quote. A cause comes
with the characters between the opening quote and the backslash it is reported at; a literal cut
off by the end of its line or of the text is reported at the opening quote itself, `none` here. -/
def stringBody : List Char → Scan (Except (LexError × Option (List Char)) (List Char))
  | [] => ⟨.error (.unterminatedString, none), [], []⟩
  | '"' :: r => ⟨.ok [], ['"'], r⟩
  | '\n' :: r => ⟨.error (.unterminatedString, none), ['\n'], r⟩
  | '\\' :: [] => ⟨.error (.unterminatedString, none), ['\\'], []⟩
  | '\\' :: '\n' :: r => ⟨.error (.unterminatedString, none), ['\\', '\n'], r⟩
  | '\\' :: c :: r =>
    let e := escape c r
    match e.value with
    | .error cause => ⟨.error (cause, some []), '\\' :: e.used, e.rest⟩
    | .ok x =>
      have := escape_rest_length c r
      let s := stringBody e.rest
      let used := '\\' :: e.used
      ⟨match s.value with
        | .ok xs => .ok (x :: xs)
        | .error (cause, before) => .error (cause, before.map (used ++ ·)),
        used ++ s.used, s.rest⟩
  | c :: r =>
    let s := stringBody r
    ⟨match s.value with
      | .ok xs => .ok (c :: xs)
      | .error (cause, before) => .error (cause, before.map (c :: ·)),
      c :: s.used, s.rest⟩
termination_by cs => cs.length

/-! ## Single tokens -/

/-- The part of a block comment behind its opening `/*`, through the closing `*/`, and what
follows it, if the comment is closed. -/
def commentBody : List Char → Option (List Char × List Char)
  | '*' :: '/' :: r => some (['*', '/'], r)
  | c :: r => (commentBody r).map fun (body, rest) => (c :: body, rest)
  | [] => none

/-- The punctuation that a character starts, where `r` is what follows it. -/
def punctAt (c : Char) (r : List Char) : Option Punct :=
  match c with
  | '{' => some .leftBrace
  | '}' => some .rightBrace
  | '[' => some .leftBracket
  | ']' => some .rightBracket
  | '(' => some .leftParen
  | ')' => some .rightParen
  | '<' => some .leftAngle
  | '>' => some .rightAngle
  | ',' => some .comma
  | ';' => some .semicolon
  | ':' => if r.head? = some ':' then some .doubleColon else some .colon
  | '=' => some .equals
  | '?' => some .question
  | '@' => some .atSign
  | _ => none

/-- One attempt to read a token where the text starts with no blank. A failure comes with the
characters between the start of the attempt and the place of the error. -/
def scan : List Char → Scan (Except (LexError × List Char) Lexeme)
  | [] => ⟨.ok .eof, [], []⟩
  | '/' :: '/' :: r =>
    let line := '/' :: '/' :: r.takeWhile (· ≠ '\n')
    ⟨.ok (.comment (String.ofList (Text.trimEnd line))), line, r.dropWhile (· ≠ '\n')⟩
  | '/' :: '*' :: r =>
    match commentBody r with
    | some (body, rest) =>
      ⟨.ok (.comment (String.ofList ('/' :: '*' :: body))), '/' :: '*' :: body, rest⟩
    | none => ⟨.error (.unterminatedComment, []), '/' :: '*' :: r, []⟩
  | '"' :: r =>
    let s := stringBody r
    ⟨match s.value with
      | .ok value => .ok (.str (String.ofList value))
      | .error (cause, none) => .error (cause, [])
      | .error (cause, some before) => .error (cause, '"' :: before),
      '"' :: s.used, s.rest⟩
  | c :: r =>
    if Text.isIdentStart c then
      let name := c :: r.takeWhile Text.isIdentRest
      ⟨.ok (.ident (String.ofList name)), name, r.dropWhile Text.isIdentRest⟩
    else
      match punctAt c r with
      | some p => ⟨.ok (.punct p), p.chars, (c :: r).drop p.chars.length⟩
      | none => ⟨.error (.unexpectedCharacter c, []), [], c :: r⟩

theorem stringBody_append (cs : List Char) :
    (stringBody cs).used ++ (stringBody cs).rest = cs := by
  fun_induction stringBody cs with
  | case1 | case2 | case3 | case4 | case5 => rfl
  | case6 c r _ e cause he => exact congrArg ('\\' :: ·) (escape_append c r)
  | case7 c r _ e x he hlt s used ih =>
    have h := escape_append c r
    simp only [used, e, s, List.cons_append, List.append_assoc] at *
    rw [ih, h]
  | case8 c r _ _ _ _ _ s ih => exact congrArg (c :: ·) ih

theorem commentBody_append {cs body rest : List Char} (h : commentBody cs = some (body, rest)) :
    body ++ rest = cs := by
  fun_induction commentBody cs generalizing body rest with
  | case1 r => cases h; rfl
  | case2 c r _ ih =>
    obtain ⟨⟨b, r'⟩, hb, he⟩ := Option.map_eq_some_iff.1 h
    cases he
    simp [ih hb]
  | case3 => simp at h

theorem punctAt_chars {c : Char} {r : List Char} {p : Punct} (h : punctAt c r = some p) :
    p.chars <+: c :: r := by
  unfold punctAt at h
  split at h <;> first
    | (cases h; exact ⟨r, rfl⟩)
    | (split at h <;> cases h)
    | cases h
  · rename_i hr
    cases r with
    | nil => simp at hr
    | cons d r' => simp only [List.head?_cons, Option.some.injEq] at hr; exact ⟨r', by rw [hr]; rfl⟩
  · exact ⟨r, rfl⟩

/-- What an attempt uses up and what it leaves make up the text. -/
theorem scan_append (cs : List Char) : (scan cs).used ++ (scan cs).rest = cs := by
  unfold scan
  split
  · rfl
  · simp [List.takeWhile_append_dropWhile]
  · split
    · rename_i h; simp [commentBody_append h]
    · simp
  · simp [stringBody_append]
  · rename_i c r _ _ _
    split
    · simp [List.takeWhile_append_dropWhile]
    · split
      · rename_i p hp
        obtain ⟨t, ht⟩ := punctAt_chars hp
        simp [← ht]
      · simp

theorem Punct.chars_ne_nil (p : Punct) : p.chars ≠ [] := by cases p <;> simp [Punct.chars]

/-- A token other than the end of the text uses up at least one character. -/
theorem scan_used_ne_nil {cs : List Char} {l : Lexeme} (h : (scan cs).value = .ok l)
    (hl : l ≠ .eof) : (scan cs).used ≠ [] := by
  unfold scan at h ⊢
  split at h
  · cases h; exact absurd rfl hl
  · simp
  · split at h <;> simp_all
  · simp
  · split at h
    · simp_all
    · split at h
      · simp_all [Punct.chars_ne_nil]
      · cases h

end Lexer

/-! ## Reading on from a place -/

/-- A place in a text and the text ahead of it. -/
structure Cursor where
  rest : List Char
  pos : Position
  deriving DecidableEq

namespace Cursor

/-- The place before all of a text. -/
def ofText (text : String) : Cursor := ⟨text.toList, .start⟩

/-- The cursor behind the blanks ahead. -/
def skipBlanks (c : Cursor) : Cursor :=
  ⟨c.rest.dropWhile Text.isBlank, c.pos.afterAll (c.rest.takeWhile Text.isBlank)⟩

/-- Reads the next token; at the end of the text that is the end-of-file token, again and again. -/
def next (c : Cursor) : Except (Position × LexError) Token × Cursor :=
  let c := c.skipBlanks
  let s := Lexer.scan c.rest
  let stop := c.pos.afterAll s.used
  (match s.value with
    | .ok l => .ok ⟨l, c.pos, stop⟩
    | .error (e, before) => .error (c.pos.afterAll before, e),
    ⟨s.rest, stop⟩)

theorem skipBlanks_rest_length (c : Cursor) : c.skipBlanks.rest.length ≤ c.rest.length :=
  (List.dropWhile_sublist _).length_le

theorem next_rest_length {c : Cursor} {t : Token} (h : c.next.1 = .ok t) (ht : t.lexeme ≠ .eof) :
    c.next.2.rest.length < c.rest.length := by
  have hb := skipBlanks_rest_length c
  have ha := congrArg List.length (Lexer.scan_append c.skipBlanks.rest)
  simp only [next] at h ⊢
  split at h
  · rename_i l hl
    cases h
    have := List.length_pos_iff.mpr (Lexer.scan_used_ne_nil hl ht)
    simp only [List.length_append] at ha
    omega
  · cases h

end Cursor

/-! ## Whole texts -/

/-- The tokens of a text, up to its end or to the first failure. -/
inductive TokenStream
  | eof (pos : Position)
  | failed (pos : Position) (e : LexError)
  | token (t : Token) (rest : TokenStream)

namespace TokenStream

/-- The tokens from a place on. -/
def ofCursor (c : Cursor) : TokenStream :=
  match h : c.next with
  | (.error (pos, e), _) => .failed pos e
  | (.ok t, c') =>
    if ht : t.lexeme = .eof then .eof t.start
    else
      have : c'.rest.length < c.rest.length := by
        have := Cursor.next_rest_length (c := c) (t := t) (by rw [h]) ht
        rwa [h] at this
      .token t (ofCursor c')
termination_by c.rest.length

/-- The tokens of a text. -/
def ofText (text : String) : TokenStream := ofCursor (.ofText text)

/-- The number of tokens ahead, not counting the end of the text. -/
def length : TokenStream → Nat
  | eof _ => 0
  | failed _ _ => 0
  | token _ rest => rest.length + 1

/-- All tokens with the end-of-file token last, or the failure that the text runs into. -/
def toExcept : TokenStream → Except (Position × LexError) (List Token)
  | eof pos => .ok [⟨.eof, pos, pos⟩]
  | failed pos e => .error (pos, e)
  | token t rest => (t :: ·) <$> rest.toExcept

end TokenStream

/-- The tokens of a text with the end-of-file token last, or its first failure. -/
def tokenize (text : String) : Except (Position × LexError) (List Token) :=
  (TokenStream.ofText text).toExcept

end CedarSchema
