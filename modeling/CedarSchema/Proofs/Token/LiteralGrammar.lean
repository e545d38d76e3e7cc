import CedarSchema.Proofs.Token.LiteralItems
import CedarSchema.Proofs.Token.Lexeme

/-
  The string literals there are. Items are read from the left as far as they go; what is then ahead
  is the closing quote, the end of the line or of the text, or a backslash that starts no escape
  (`Halt`). Since no item begins in any of these places, and no two items begin in the same place,
  there is one such reading of every text (`ReadTo`). Where it comes to a stop decides what is
  reported and at which place (`literal_read_exactly`).
-/

namespace CedarSchema.Lexer

/-! ## One item -/

theorem Escape.unique {s s' r r' : List Char} {x x' : Char} (h : Escape s x) (h' : Escape s' x')
    (heq : s ++ r = s' ++ r') : s = s' ∧ x = x' ∧ r = r' := by
  obtain ⟨c, ds, rfl, -, he⟩ := h.escape_eq r
  obtain ⟨c', ds', rfl, -, he'⟩ := h'.escape_eq r'
  obtain ⟨rfl, hrest⟩ : c = c' ∧ ds ++ r = ds' ++ r' := List.cons.inj heq
  rw [hrest, he'] at he
  simp only [Scan.mk.injEq, Except.ok.injEq] at he
  exact ⟨he.2.1.symm, he.1.symm, he.2.2.symm⟩

/-- At most one item begins at a place. -/
theorem LiteralItem.unique {i j : LiteralItem} {r r' : List Char}
    (h : i.spelling ++ r = j.spelling ++ r') : i = j ∧ r = r' := by
  obtain ⟨s, x, hs⟩ := i
  obtain ⟨s', x', hs'⟩ := j
  cases hs with
  | plain hquote hslash hline =>
    cases hs' with
    | plain hquote' hslash' hline' =>
      obtain ⟨rfl, rfl⟩ := List.cons.inj h
      exact ⟨rfl, rfl⟩
    | escaped h' => exact absurd (List.cons.inj h).1 hslash
  | escaped he =>
    cases hs' with
    | plain hquote' hslash' hline' => exact absurd (List.cons.inj h).1.symm hslash'
    | escaped he' =>
      obtain ⟨rfl, rfl, rfl⟩ := he.unique he' (List.cons.inj h).2
      exact ⟨rfl, rfl⟩

/-! ## Where no item begins -/

/-- The literal is cut off, behind a backslash possibly. -/
inductive CutOff : List Char → Prop
  | plain {r : List Char} (h : LineEnds r) : CutOff r
  | escaped {r : List Char} (h : LineEnds r) : CutOff ('\\' :: r)

/-- What can be ahead where no item begins. -/
inductive Halt : List Char → Prop
  | closed (r : List Char) : Halt ('"' :: r)
  | cutOff {r : List Char} (h : CutOff r) : Halt r
  | fault {r : List Char} {e : LexError} (h : EscapeFault r e) : Halt ('\\' :: r)

theorem LineEnds.eq_nil_or_cons {r : List Char} (h : LineEnds r) :
    r = [] ∨ ∃ r', r = '\n' :: r' := by
  cases r with
  | nil => exact .inl rfl
  | cons c r => exact .inr ⟨r, by rw [h c rfl]⟩

theorem not_lineEnds_cons {c : Char} (hc : c ≠ '\n') (r : List Char) : ¬LineEnds (c :: r) :=
  fun h => hc (h c rfl)

theorem EscapeFault.not_cutOff {r : List Char} {e : LexError} (h : EscapeFault r e) :
    ¬CutOff ('\\' :: r) := by
  obtain ⟨c, r, rfl, hc, -⟩ := h.escape_value
  rintro (h | h)
  · exact not_lineEnds_cons (by decide) _ h
  · exact not_lineEnds_cons hc r h

/-- What a text that begins with an item looks like. -/
theorem LiteralItem.append_cases (i : LiteralItem) (r : List Char) :
    (∃ c, i.spelling ++ r = c :: r ∧ c ≠ '"' ∧ c ≠ '\\' ∧ c ≠ '\n') ∨
      ∃ c ds, i.spelling ++ r = '\\' :: c :: (ds ++ r) ∧ c ≠ '\n' ∧
        escape c (ds ++ r) = ⟨.ok i.value, c :: ds, r⟩ := by
  obtain ⟨s, x, form⟩ := i
  cases form with
  | plain hquote hslash hline => exact .inl ⟨x, rfl, hquote, hslash, hline⟩
  | escaped he =>
    obtain ⟨c, ds, rfl, hc, hread⟩ := he.escape_eq r
    exact .inr ⟨c, ds, rfl, hc, hread⟩

theorem Halt.not_item {ahead : List Char} (h : Halt ahead) (i : LiteralItem) (r : List Char) :
    ahead ≠ i.spelling ++ r := by
  intro heq
  obtain ⟨c, htext, hquote, hslash, hline⟩ | ⟨c, ds, htext, hc, hread⟩ := i.append_cases r
  · rw [htext] at heq
    subst heq
    cases h with
    | closed => exact hquote rfl
    | cutOff h =>
      cases h with
      | plain h => exact not_lineEnds_cons hline r h
      | escaped h => exact hslash rfl
    | fault h => exact hslash rfl
  · rw [htext] at heq
    subst heq
    cases h with
    | cutOff h =>
      cases h with
      | plain h => exact not_lineEnds_cons (by decide) _ h
      | escaped h => exact not_lineEnds_cons hc _ h
    | fault h =>
      obtain ⟨c', r', hcons, -, hfault⟩ := h.escape_value
      obtain ⟨rfl, rfl⟩ := List.cons.inj hcons
      rw [hread] at hfault
      cases hfault

/-- Everywhere else an item begins. -/
theorem item_or_halt (cs : List Char) :
    (∃ (i : LiteralItem) (r : List Char), cs = i.spelling ++ r) ∨ Halt cs := by
  cases cs with
  | nil => exact .inr (.cutOff (.plain (fun _ h => by cases h)))
  | cons c r =>
    by_cases hquote : c = '"'
    · exact .inr (hquote ▸ .closed r)
    by_cases hline : c = '\n'
    · exact .inr (.cutOff (.plain (fun d hd => by cases hd; exact hline)))
    by_cases hslash : c = '\\'
    · subst hslash
      cases r with
      | nil => exact .inr (.cutOff (.escaped (fun _ h => by cases h)))
      | cons d r =>
        by_cases hd : d = '\n'
        · exact .inr (.cutOff (.escaped (fun e he => by cases he; exact hd)))
        · obtain ⟨s, x, rest, heq, hs⟩ | ⟨e, he⟩ := escape_or_fault hd r
          · exact .inl ⟨⟨_, x, .escaped hs⟩, rest, congrArg _ heq⟩
          · exact .inr (.fault he)
    · exact .inl ⟨⟨[c], c, .plain hquote hslash hline⟩, r, rfl⟩

/-! ## Items in a row -/

/-- Items are read off a text as far as they go, and `ahead` is what comes next. -/
structure ReadTo (text : List Char) (items : List LiteralItem) (ahead : List Char) : Prop where
  eq : text = spelled items ++ ahead
  farthest : ∀ more rest, text = spelled more ++ rest → more <+: items

theorem isPrefix_of_halt {items more : List LiteralItem} {ahead rest : List Char} (h : Halt ahead)
    (heq : spelled items ++ ahead = spelled more ++ rest) : more <+: items := by
  induction more generalizing items with
  | nil => exact List.nil_prefix
  | cons j more ih =>
    rw [spelled_cons, List.append_assoc] at heq
    cases items with
    | nil => exact absurd heq (h.not_item j _)
    | cons i items =>
      rw [spelled_cons, List.append_assoc] at heq
      obtain ⟨rfl, hbehind⟩ := LiteralItem.unique heq
      exact List.cons_prefix_cons.2 ⟨rfl, ih hbehind⟩

theorem readTo_of_halt (items : List LiteralItem) {ahead : List Char} (h : Halt ahead) :
    ReadTo (spelled items ++ ahead) items ahead :=
  ⟨rfl, fun _ _ heq => isPrefix_of_halt h heq⟩

theorem ReadTo.unique {text ahead ahead' : List Char} {items items' : List LiteralItem}
    (h : ReadTo text items ahead) (h' : ReadTo text items' ahead') :
    items' = items ∧ ahead' = ahead := by
  have hitems : items' = items :=
    (h.farthest items' ahead' h'.eq).eq_of_length
      (le_antisymm (h.farthest items' ahead' h'.eq).length_le
        (h'.farthest items ahead h.eq).length_le)
  subst hitems
  exact ⟨rfl, List.append_cancel_left (h'.eq.symm.trans h.eq)⟩

/-- Items take characters, so reading them comes to a halt. -/
theorem exists_halt (text : List Char) :
    ∃ items ahead, Halt ahead ∧ text = spelled items ++ ahead := by
  induction hn : text.length using Nat.strongRecOn generalizing text with
  | ind n ih =>
    obtain ⟨i, r, rfl⟩ | h := item_or_halt text
    · have hpos := List.length_pos_iff.2 i.spelling_ne_nil
      rw [List.length_append] at hn
      obtain ⟨items, ahead, h, rfl⟩ := ih r.length (by omega) r rfl
      exact ⟨i :: items, ahead, h, by rw [spelled_cons, List.append_assoc]⟩
    · exact ⟨[], text, h, rfl⟩

/-! ## The literal -/

theorem CutOff.stringBody_value {r : List Char} (h : CutOff r) :
    (stringBody r).value = .error (.unterminatedString, none) := by
  cases h with
  | plain h => obtain rfl | ⟨r, rfl⟩ := h.eq_nil_or_cons <;> rw [stringBody]
  | escaped h => obtain rfl | ⟨r, rfl⟩ := h.eq_nil_or_cons <;> rw [stringBody]

theorem EscapeFault.stringBody_value {r : List Char} {e : LexError} (h : EscapeFault r e) :
    (stringBody ('\\' :: r)).value = .error (e, some []) := by
  obtain ⟨c, r, rfl, hc, he⟩ := h.escape_value
  rw [stringBody]
  · simp only [he]
  · exact hc

theorem stringBody_closed (items : List LiteralItem) (rest : List Char) :
    stringBody (spelled items ++ '"' :: rest) =
      ⟨.ok (valueOf items), spelled items ++ ['"'], rest⟩ := by
  rw [stringBody_spelled, stringBody]
  simp only [behindItems, List.append_nil]

end CedarSchema.Lexer

namespace CedarSchema

open Lexer

theorem Cursor.next_quote (r : List Char) (pos : Position) :
    (next ⟨'"' :: r, pos⟩).1 = match (stringBody r).value with
      | .ok value =>
        .ok ⟨.str (String.ofList value), pos, pos.afterAll ('"' :: (stringBody r).used)⟩
      | .error (cause, none) => .error (pos, cause)
      | .error (cause, some before) => .error (pos.afterAll ('"' :: before), cause) := by
  have hskip : skipBlanks ⟨'"' :: r, pos⟩ = ⟨'"' :: r, pos⟩ := by
    simp [skipBlanks, Text.isBlank, Position.afterAll_nil]
  simp only [next, hskip, scan]
  generalize (stringBody r).value = value
  cases value with
  | ok value => rfl
  | error e =>
    obtain ⟨cause, before⟩ := e
    cases before with
    | none => rfl
    | some before => rfl

theorem Cursor.next_closed (items : List LiteralItem) (rest : List Char) (pos : Position) :
    let stop := pos.afterAll ('"' :: (spelled items ++ ['"']))
    next ⟨'"' :: (spelled items ++ '"' :: rest), pos⟩ =
      (.ok ⟨.str (String.ofList (valueOf items)), pos, stop⟩, ⟨rest, stop⟩) := by
  have hscan : scan ('"' :: (spelled items ++ ['"']) ++ rest) =
      ⟨.ok (.str (String.ofList (valueOf items))), '"' :: (spelled items ++ ['"']), rest⟩ := by
    have htext : '"' :: (spelled items ++ ['"']) ++ rest =
        '"' :: (spelled items ++ '"' :: rest) := by
      simp
    rw [htext, scan, stringBody_closed]
  have := @next_of_scan _ _ pos _ hscan (by simp)
  simpa using this

/-- Where a literal is not closed, the error is at the opening quote if the literal is cut off, and
else at the backslash that starts no escape. -/
theorem Cursor.next_not_closed (items : List LiteralItem) {ahead : List Char} (h : Halt ahead)
    (hclosed : ¬∃ rest, ahead = '"' :: rest) (pos : Position) :
    ∃ place cause, (next ⟨'"' :: (spelled items ++ ahead), pos⟩).1 = .error (place, cause) ∧
      (CutOff ahead → place = pos ∧ cause = .unterminatedString) ∧
      (¬CutOff ahead → place = pos.afterAll ('"' :: spelled items) ∧
        ∃ behind, ahead = '\\' :: behind ∧ EscapeFault behind cause) := by
  rw [next_quote, stringBody_spelled]
  cases h with
  | closed rest => exact absurd ⟨rest, rfl⟩ hclosed
  | cutOff h =>
    refine ⟨pos, .unterminatedString, ?_, fun _ => ⟨rfl, rfl⟩, fun hnot => absurd h hnot⟩
    simp only [behindItems, h.stringBody_value, Option.map_none]
  | @fault r e h =>
    refine ⟨pos.afterAll ('"' :: spelled items), e, ?_, fun hcut => absurd hcut h.not_cutOff,
      fun _ => ⟨rfl, r, rfl, h⟩⟩
    simp only [behindItems, h.stringBody_value, Option.map_some, List.append_nil]

/-- Behind an opening quote a literal is read if and only if items and a closing quote follow. Items
and closing quote are then the only ones, and the token says what the items stand for. Otherwise
reading goes as far as there are items, and what is ahead of it there decides on the error. -/
theorem literal_read_exactly (r : List Char) (pos : Position) :
    let read := (Cursor.mk ('"' :: r) pos).next
    ((∃ t, read.1 = .ok t) ↔ ∃ items rest, r = spelled items ++ '"' :: rest) ∧
    (∀ items rest, r = spelled items ++ '"' :: rest →
      (∀ items' rest', r = spelled items' ++ '"' :: rest' → items' = items ∧ rest' = rest) ∧
      let stop := pos.afterAll ('"' :: (spelled items ++ ['"']))
      read = (.ok ⟨.str (String.ofList (valueOf items)), pos, stop⟩, ⟨rest, stop⟩)) ∧
    ((¬∃ items rest, r = spelled items ++ '"' :: rest) →
      ∃ items ahead place cause, ReadTo r items ahead ∧ read.1 = .error (place, cause) ∧
        (CutOff ahead → place = pos ∧ cause = .unterminatedString) ∧
        (¬CutOff ahead → place = pos.afterAll ('"' :: spelled items) ∧
          ∃ behind, ahead = '\\' :: behind ∧ EscapeFault behind cause)) := by
  intro read
  have hnot : (¬∃ items rest, r = spelled items ++ '"' :: rest) →
      ∃ items ahead place cause, ReadTo r items ahead ∧ read.1 = .error (place, cause) ∧
        (CutOff ahead → place = pos ∧ cause = .unterminatedString) ∧
        (¬CutOff ahead → place = pos.afterAll ('"' :: spelled items) ∧
          ∃ behind, ahead = '\\' :: behind ∧ EscapeFault behind cause) := by
    intro hopen
    obtain ⟨items, ahead, hhalt, rfl⟩ := exists_halt r
    have hclosed : ¬∃ rest, ahead = '"' :: rest := by
      rintro ⟨rest, rfl⟩
      exact hopen ⟨items, rest, rfl⟩
    obtain ⟨place, cause, hplace⟩ := Cursor.next_not_closed items hhalt hclosed pos
    exact ⟨items, ahead, place, cause, readTo_of_halt items hhalt, hplace⟩
  refine ⟨⟨?_, ?_⟩, ?_, hnot⟩
  · rintro ⟨t, ht⟩
    by_contra hopen
    obtain ⟨items, ahead, place, cause, -, herror, -⟩ := hnot hopen
    rw [herror] at ht
    cases ht
  · rintro ⟨items, rest, rfl⟩
    exact ⟨_, congrArg Prod.fst (Cursor.next_closed items rest pos)⟩
  · rintro items rest rfl
    refine ⟨fun items' rest' heq => ?_, Cursor.next_closed items rest pos⟩
    have hunique := (readTo_of_halt items (.closed rest)).unique
      (heq ▸ readTo_of_halt items' (.closed rest'))
    exact ⟨hunique.1, (List.cons.inj hunique.2).2⟩

/-- A character that stands for itself and an escape with capital and small digits. -/
def sharp : List LiteralItem :=
  [⟨['a'], 'a', .plain (by decide) (by decide) (by decide)⟩,
    ⟨['\\', 'u', '{', '0', 'd', 'F', '}'], 'ß',
      .escaped (@Escape.unicode ['0', 'd', 'F'] _ (by simp) ⟨by simp [isHexDigit], by simp⟩ rfl)⟩]

/-- Both items are read, and a backslash before a character that names no escape is reported. -/
theorem literal_read_exactly_sharp :
    (Cursor.mk ('"' :: (spelled sharp ++ ['"', ';'])) .start).next =
        (.ok ⟨.str "aß", .start, ⟨1, 11, 10⟩⟩, ⟨[';'], ⟨1, 11, 10⟩⟩) ∧
      (¬∃ items rest, ['a', '\\', 'q', '"'] = spelled items ++ '"' :: rest) ∧
      ∃ items ahead, ReadTo ['a', '\\', 'q', '"'] items ahead ∧ ¬CutOff ahead ∧
        (Cursor.mk ['"', 'a', '\\', 'q', '"'] .start).next.1 =
          .error (⟨1, 3, 2⟩, .unknownEscape 'q') := by
  have herror : (Cursor.mk ['"', 'a', '\\', 'q', '"'] .start).next.1 =
      .error (⟨1, 3, 2⟩, .unknownEscape 'q') := by decide +kernel
  obtain ⟨hiff, -, hopen⟩ := literal_read_exactly ['a', '\\', 'q', '"'] .start
  have hnot : ¬∃ items rest, ['a', '\\', 'q', '"'] = spelled items ++ '"' :: rest := by
    rw [← hiff, herror]
    rintro ⟨t, ht⟩
    cases ht
  obtain ⟨items, ahead, place, cause, hread, hplace, hcut, -⟩ := hopen hnot
  refine ⟨((literal_read_exactly _ .start).2.1 sharp [';'] rfl).2, hnot, items, ahead, hread, ?_,
    herror⟩
  intro h
  rw [herror, (hcut h).2] at hplace
  cases hplace

end CedarSchema
