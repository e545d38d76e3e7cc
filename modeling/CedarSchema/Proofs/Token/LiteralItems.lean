import CedarSchema.Token.Lexer

/-
  The items that a string literal is made of. An item is a character that stands for itself or an
  escape, and reading takes an item exactly, whatever follows it (`stringBody_spelled`). Behind the
  backslash there is an escape, or a fault that is one of five (`escape_or_fault`), so that what a
  backslash starts is read in one way only.
-/

namespace CedarSchema.Lexer

/-! ## Hexadecimal digits -/

/-- What may stand between the braces of an escape. -/
structure HexDigits (ds : List Char) : Prop where
  hex : ∀ d ∈ ds, isHexDigit d = true
  atMostSix : ds.length ≤ 6

theorem spanHex_eq {ds rest : List Char} {n : Nat} (hd : ∀ d ∈ ds, isHexDigit d = true)
    (hn : ds.length ≤ n) (hrest : ∀ c ∈ rest.head?, isHexDigit c = true → ds.length = n) :
    spanHex n (ds ++ rest) = (ds, rest) := by
  induction ds generalizing n with
  | nil =>
    cases n with
    | zero => rfl
    | succ n =>
      cases rest with
      | nil => rfl
      | cons c r =>
        have hc : ¬isHexDigit c = true := fun h => by cases hrest c rfl h
        rw [List.nil_append, spanHex, if_neg hc]
  | cons d ds ih =>
    obtain ⟨hd, hds⟩ := List.forall_mem_cons.1 hd
    cases n with
    | zero => cases hn
    | succ n =>
      simp only [List.length_cons, Nat.add_le_add_iff_right, Nat.add_right_cancel_iff] at hn hrest
      rw [List.cons_append, spanHex, if_pos hd, ih hds hn hrest]

/-- Digits are read as far as they go, up to a limit. -/
theorem exists_spanHex (n : Nat) (cs : List Char) : ∃ ds rest, cs = ds ++ rest ∧
    (∀ d ∈ ds, isHexDigit d = true) ∧ ds.length ≤ n ∧
    ∀ c ∈ rest.head?, isHexDigit c = true → ds.length = n := by
  induction n generalizing cs with
  | zero => exact ⟨[], cs, rfl, List.forall_mem_nil _, Nat.le_refl _, fun _ _ _ => rfl⟩
  | succ n ih =>
    have hnone : (∀ c ∈ cs.head?, ¬isHexDigit c = true) → ∃ ds rest, cs = ds ++ rest ∧
        (∀ d ∈ ds, isHexDigit d = true) ∧ ds.length ≤ n + 1 ∧
        ∀ c ∈ rest.head?, isHexDigit c = true → ds.length = n + 1 :=
      fun h => ⟨[], cs, rfl, List.forall_mem_nil _, Nat.zero_le _,
        fun c hc hhex => absurd hhex (h c hc)⟩
    cases cs with
    | nil => exact hnone (fun c hc => by cases hc)
    | cons c r =>
      by_cases hc : isHexDigit c = true
      · obtain ⟨ds, rest, rfl, hd, hn, hrest⟩ := ih r
        refine ⟨c :: ds, rest, rfl, List.forall_mem_cons.2 ⟨hc, hd⟩, Nat.succ_le_succ hn, ?_⟩
        intro d hd h
        rw [List.length_cons, hrest d hd h]
      · exact hnone (fun d hd => by cases hd; exact hc)

theorem HexDigits.spanHex_brace {ds : List Char} (hd : HexDigits ds) (r : List Char) :
    spanHex 6 (ds ++ '}' :: r) = (ds, '}' :: r) := by
  refine spanHex_eq hd.hex hd.atMostSix fun c hc hhex => ?_
  cases hc
  cases hhex

theorem charOfCodePoint_toNat (c : Char) : charOfCodePoint c.toNat = some c := by
  have h : c.toNat.isValidChar := c.valid
  rw [charOfCodePoint, dif_pos h]
  rfl

theorem toNat_of_charOfCodePoint {n : Nat} {c : Char} (h : charOfCodePoint n = some c) :
    c.toNat = n := by
  by_cases hn : n.isValidChar
  · rw [charOfCodePoint, dif_pos hn] at h
    cases h
    rfl
  · rw [charOfCodePoint, dif_neg hn] at h
    cases h

/-! ## Behind a backslash -/

/-- Neither the line nor the text goes on. -/
def LineEnds (r : List Char) : Prop := ∀ c ∈ r.head?, c = '\n'

/-- An escape as it stands behind its backslash, and the character it is written for. -/
inductive Escape : List Char → Char → Prop
  | lineFeed : Escape ['n'] '\n'
  | carriageReturn : Escape ['r'] '\r'
  | tab : Escape ['t'] '\t'
  | null : Escape ['0'] '\x00'
  | backslash : Escape ['\\'] '\\'
  | quote : Escape ['"'] '"'
  | unicode {ds : List Char} {c : Char} (hne : ds ≠ []) (hd : HexDigits ds)
    (hc : hexValue ds = c.toNat) : Escape ('u' :: '{' :: (ds ++ ['}'])) c

/-- What stands behind a backslash and is no escape, with the cause that is reported. -/
inductive EscapeFault : List Char → LexError → Prop
  | unknown {c : Char} {r : List Char} (h : c ∉ ['n', 'r', 't', '0', '\\', '"', 'u', '\n']) :
    EscapeFault (c :: r) (.unknownEscape c)
  | unopened {r : List Char} (h : r.head? ≠ some '{') :
    EscapeFault ('u' :: r) .unicodeEscapeUnopened
  /-- The text or the line ends before the closing brace. -/
  | unterminated {ds r : List Char} (hd : HexDigits ds) (hr : LineEnds r) :
    EscapeFault ('u' :: '{' :: (ds ++ r)) .unicodeEscapeUnterminated
  /-- No digit, or one digit too many. -/
  | digits {ds r : List Char} {c : Char} (hd : HexDigits ds) (hbrace : c ≠ '}') (hline : c ≠ '\n')
    (hc : isHexDigit c = true → ds.length = 6) :
    EscapeFault ('u' :: '{' :: (ds ++ c :: r)) .unicodeEscapeDigits
  | noCharacter {ds r : List Char} (hd : HexDigits ds)
    (h : ds = [] ∨ ∀ c : Char, c.toNat ≠ hexValue ds) :
    EscapeFault ('u' :: '{' :: (ds ++ '}' :: r)) (.unicodeEscapeInvalid (String.ofList ds))

theorem unicodeValue_of_toNat {ds : List Char} {c : Char} (hne : ds ≠ [])
    (hc : hexValue ds = c.toNat) : unicodeValue ds = .ok c := by
  unfold unicodeValue
  split
  · exact absurd rfl hne
  · rw [hc, charOfCodePoint_toNat]

theorem unicodeValue_of_forall_ne {ds : List Char}
    (h : ds = [] ∨ ∀ c : Char, c.toNat ≠ hexValue ds) :
    unicodeValue ds = .error (.unicodeEscapeInvalid (String.ofList ds)) := by
  obtain rfl | h := h
  · rfl
  unfold unicodeValue
  split
  · rfl
  · split
    · rename_i c hc
      exact absurd (toNat_of_charOfCodePoint hc) (h c)
    · rfl

/-- An escape is read as its character, and nothing behind it is. -/
theorem Escape.escape_eq {s : List Char} {x : Char} (h : Escape s x) (r : List Char) :
    ∃ c ds, s = c :: ds ∧ c ≠ '\n' ∧ escape c (ds ++ r) = ⟨.ok x, s, r⟩ := by
  cases h with
  | @unicode ds _ hne hd hc =>
    refine ⟨'u', _, rfl, by decide, ?_⟩
    have hr : '{' :: (ds ++ ['}']) ++ r = '{' :: (ds ++ '}' :: r) := by simp
    simp only [hr, escape, unicodeEscape, hd.spanHex_brace, unicodeValue_of_toNat hne hc]
  | _ => exact ⟨_, [], rfl, by decide, rfl⟩

theorem EscapeFault.escape_value {s : List Char} {e : LexError} (h : EscapeFault s e) :
    ∃ c r, s = c :: r ∧ c ≠ '\n' ∧ (escape c r).value = .error e := by
  cases h with
  | @unknown c r h =>
    refine ⟨c, r, rfl, fun hline => h (by simp [hline]), ?_⟩
    unfold escape
    split
    case h_8 => rfl
    all_goals exact absurd (by simp) h
  | @unopened r h =>
    refine ⟨'u', r, rfl, by decide, ?_⟩
    simp only [escape]
    unfold unicodeEscape
    split
    · exact absurd rfl h
    · rfl
  | @unterminated ds r hd hr =>
    have hspan : spanHex 6 (ds ++ r) = (ds, r) := by
      refine spanHex_eq hd.hex hd.atMostSix fun c hc hhex => ?_
      rw [hr c hc] at hhex
      cases hhex
    refine ⟨'u', _, rfl, by decide, ?_⟩
    simp only [escape, unicodeEscape, hspan]
    cases r with
    | nil => rfl
    | cons c r =>
      obtain rfl := hr c rfl
      rfl
  | @digits ds r c hd hbrace hline hc =>
    have hspan : spanHex 6 (ds ++ c :: r) = (ds, c :: r) := by
      refine spanHex_eq hd.hex hd.atMostSix fun d hd hhex => ?_
      cases hd
      exact hc hhex
    refine ⟨'u', _, rfl, by decide, ?_⟩
    simp only [escape, unicodeEscape, hspan]
  | @noCharacter ds r hd h =>
    refine ⟨'u', _, rfl, by decide, ?_⟩
    simp only [escape, unicodeEscape, hd.spanHex_brace, unicodeValue_of_forall_ne h]

theorem unicode_or_fault (r : List Char) :
    (∃ s x rest, 'u' :: r = s ++ rest ∧ Escape s x) ∨ ∃ e, EscapeFault ('u' :: r) e := by
  by_cases hopen : r.head? = some '{'
  · obtain ⟨r, rfl⟩ := List.head?_eq_some_iff.1 hopen
    obtain ⟨ds, rest, rfl, hhex, hlength, hrest⟩ := exists_spanHex 6 r
    have hd : HexDigits ds := ⟨hhex, hlength⟩
    cases rest with
    | nil => exact .inr ⟨_, .unterminated hd (fun c hc => by cases hc)⟩
    | cons c rest =>
      by_cases hline : c = '\n'
      · exact .inr ⟨_, .unterminated hd (fun d hd => by cases hd; exact hline)⟩
      by_cases hbrace : c = '}'
      · subst hbrace
        by_cases hvalue : ds = [] ∨ ∀ c : Char, c.toNat ≠ hexValue ds
        · exact .inr ⟨_, .noCharacter hd hvalue⟩
        · obtain ⟨hne, hvalue⟩ := not_or.1 hvalue
          obtain ⟨x, hx⟩ := Classical.not_forall_not.1 hvalue
          exact .inl ⟨_, x, rest, by simp, .unicode hne hd hx.symm⟩
      · exact .inr ⟨_, .digits hd hbrace hline (hrest c rfl)⟩
  · exact .inr ⟨_, .unopened hopen⟩

/-- Behind a backslash there is an escape or a fault, unless the line or the text ends there. -/
theorem escape_or_fault {c : Char} (hc : c ≠ '\n') (r : List Char) :
    (∃ s x rest, c :: r = s ++ rest ∧ Escape s x) ∨ ∃ e, EscapeFault (c :: r) e := by
  by_cases h : c ∈ ['n', 'r', 't', '0', '\\', '"', 'u', '\n']
  · simp only [List.mem_cons, List.not_mem_nil, or_false] at h
    obtain rfl | rfl | rfl | rfl | rfl | rfl | rfl | rfl := h
    · exact .inl ⟨['n'], _, r, rfl, .lineFeed⟩
    · exact .inl ⟨['r'], _, r, rfl, .carriageReturn⟩
    · exact .inl ⟨['t'], _, r, rfl, .tab⟩
    · exact .inl ⟨['0'], _, r, rfl, .null⟩
    · exact .inl ⟨['\\'], _, r, rfl, .backslash⟩
    · exact .inl ⟨['"'], _, r, rfl, .quote⟩
    · exact unicode_or_fault r
    · exact absurd rfl hc
  · exact .inr ⟨_, .unknown h⟩

/-! ## Items -/

/-- How the items of a literal are spelled, and the character each stands for. -/
inductive ItemForm : List Char → Char → Prop
  | plain {c : Char} (hquote : c ≠ '"') (hslash : c ≠ '\\') (hline : c ≠ '\n') : ItemForm [c] c
  | escaped {s : List Char} {c : Char} (h : Escape s c) : ItemForm ('\\' :: s) c

/-- One item of a literal. -/
@[ext]
structure LiteralItem where
  spelling : List Char
  value : Char
  form : ItemForm spelling value

/-- Items in a row, as they are written. -/
def spelled (items : List LiteralItem) : List Char := items.flatMap LiteralItem.spelling

/-- The text that items in a row stand for. -/
def valueOf (items : List LiteralItem) : List Char := items.map LiteralItem.value

theorem spelled_cons (i : LiteralItem) (items : List LiteralItem) :
    spelled (i :: items) = i.spelling ++ spelled items := rfl

theorem LiteralItem.spelling_ne_nil (i : LiteralItem) : i.spelling ≠ [] := by
  obtain ⟨_, _, h⟩ := i
  cases h <;> exact List.cons_ne_nil _ _

/-- Reading what stands behind some items: the result with the items in front of it. -/
def behindItems (items : List LiteralItem)
    (s : Scan (Except (LexError × Option (List Char)) (List Char))) :
    Scan (Except (LexError × Option (List Char)) (List Char)) :=
  ⟨match s.value with
    | .ok xs => .ok (valueOf items ++ xs)
    | .error (cause, before) => .error (cause, before.map (spelled items ++ ·)),
    spelled items ++ s.used, s.rest⟩

theorem stringBody_item (i : LiteralItem) (cs : List Char) :
    stringBody (i.spelling ++ cs) = behindItems [i] (stringBody cs) := by
  obtain ⟨spelling, x, form⟩ := i
  cases form with
  | plain hquote hslash hline =>
    show stringBody (x :: cs) = _
    rw [stringBody]
    · rfl
    all_goals simp [hquote, hslash, hline]
  | @escaped s _ h =>
    obtain ⟨c, ds, rfl, hc, he⟩ := h.escape_eq cs
    show stringBody ('\\' :: c :: (ds ++ cs)) = _
    rw [stringBody]
    · simp only [he, behindItems, spelled, valueOf, List.flatMap_cons, List.flatMap_nil,
        List.append_nil]
      rfl
    · exact hc

/-- Items in front of a text are read as what they stand for, and nothing behind them changes how
they are read. -/
theorem stringBody_spelled (items : List LiteralItem) (cs : List Char) :
    stringBody (spelled items ++ cs) = behindItems items (stringBody cs) := by
  induction items with
  | nil =>
    show stringBody cs = _
    generalize stringBody cs = s
    obtain ⟨value, used, rest⟩ := s
    match value with
    | .ok xs => rfl
    | .error (cause, none) => rfl
    | .error (cause, some before) => rfl
  | cons i items ih =>
    rw [spelled_cons, List.append_assoc, stringBody_item, ih]
    generalize stringBody cs = s
    obtain ⟨value, used, rest⟩ := s
    match value with
    | .ok xs => simp [behindItems, spelled, valueOf]
    | .error (cause, none) => simp [behindItems, spelled]
    | .error (cause, some before) => simp [behindItems, spelled]

end CedarSchema.Lexer
