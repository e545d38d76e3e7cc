import CedarSchema.Json.Reader
import CedarSchema.Json.Writer
import CedarSchema.Proofs.Dict

/-
  Reading undoes writing. A value that can be read at all is read from its text on one line, as long
  as arrays and objects are nested no deeper than may be read (`read?_text`); and whatever is read
  is such a value (`readable_of_read?`).
-/

namespace CedarSchema.Json

open Text

/-- The reading gives `value` and leaves `rest`. -/
def Yields {n : Nat} {α : Type} (r : Option (Front n α)) (value : α) (rest : List Char) : Prop :=
  ∃ h, r = some ⟨value, rest, h⟩

theorem Yields.bind {n m : Nat} {α β : Type} {r : Option (Front n α)} {a : α} {b : β}
    {rest rest' : List Char} {f : Front n α → Option (Front m β)} (h : Yields r a rest)
    (hf : ∀ h, Yields (f ⟨a, rest, h⟩) b rest') : Yields (r >>= f) b rest' := by
  obtain ⟨hlt, rfl⟩ := h
  exact hf hlt

/-! ## Strings -/

theorem hexDigitValue?_hexDigit : ∀ n < 16, hexDigitValue? (hexDigit n) = some n := by decide

theorem unicodeEscape_hexDigit {c : Char} (h : c.toNat < 0x20) (r : List Char) :
    unicodeEscape ('0' :: '0' :: hexDigit (c.toNat / 16) :: hexDigit (c.toNat % 16) :: r) =
      some (c, r) := by
  have hhigh := hexDigitValue?_hexDigit (c.toNat / 16) (by omega)
  have hlow := hexDigitValue?_hexDigit (c.toNat % 16) (by omega)
  have hzero : hexDigitValue? '0' = some 0 := by decide
  have hhex : hex4 '0' '0' (hexDigit (c.toNat / 16)) (hexDigit (c.toNat % 16)) = some c.toNat := by
    simp only [hex4, hzero, hhigh, hlow, Option.bind_eq_bind, Option.bind_some, Option.pure_def,
      Option.some.injEq]
    omega
  have hno : isHighSurrogate c.toNat = false ∧ isLowSurrogate c.toNat = false := by
    simp only [isHighSurrogate, isLowSurrogate, Bool.and_eq_false_iff, decide_eq_false_iff_not]
    omega
  simp only [unicodeEscape, hhex, hno, Bool.false_eq_true, if_false, Char.ofNat_toNat]

/-- A character is written as itself or behind a backslash, and what is behind a backslash is read
as the character. -/
theorem escapeChar_cases (c : Char) :
    (escapeChar c = [c] ∧ c ≠ '"' ∧ c ≠ '\\' ∧ ¬c.toNat < 0x20) ∨
      ∃ e, escapeChar c = '\\' :: e ∧ ∀ r, escape (e ++ r) = some (c, r) := by
  unfold escapeChar
  iterate 7
    split
    · rename_i h
      exact .inr ⟨_, rfl, fun r => by simp [escape, h]⟩
  split
  · rename_i h
    exact .inr ⟨_, rfl, fun r => unicodeEscape_hexDigit h r⟩
  · rename_i hquote hbackslash _ _ _ _ _ hlow
    exact .inl ⟨rfl, hquote, hbackslash, hlow⟩

theorem yields_stringBody_escape {r r' : List Char} {c : Char} {s rest : List Char}
    (h : escape r = some (c, r')) (hs : Yields (stringBody r') s rest) :
    Yields (stringBody ('\\' :: r)) (c :: s) rest := by
  obtain ⟨hlt, hs⟩ := hs
  have hr := escape_length_lt h
  rw [stringBody]
  split
  · rename_i h'
    cases h.symm.trans h'
  · rename_i c' r'' h'
    cases h.symm.trans h'
    rw [hs]
    exact ⟨_, rfl⟩

theorem yields_stringBody_char {c : Char} {r s rest : List Char} (hquote : c ≠ '"')
    (hbackslash : c ≠ '\\') (hlow : ¬c.toNat < 0x20) (hs : Yields (stringBody r) s rest) :
    Yields (stringBody (c :: r)) (c :: s) rest := by
  obtain ⟨hlt, hs⟩ := hs
  rw [stringBody]
  · rw [if_neg hlow, hs]
    exact ⟨_, rfl⟩
  · exact hquote
  · exact hbackslash

theorem yields_stringBody (s rest : List Char) :
    Yields (stringBody (s.flatMap escapeChar ++ '"' :: rest)) s rest := by
  induction s with
  | nil =>
    rw [List.flatMap_nil, List.nil_append, stringBody]
    exact ⟨_, rfl⟩
  | cons c s ih =>
    rw [List.flatMap_cons, List.append_assoc]
    rcases escapeChar_cases c with ⟨hc, hquote, hbackslash, hlow⟩ | ⟨e, hc, he⟩
    · rw [hc]
      exact yields_stringBody_char hquote hbackslash hlow ih
    · rw [hc]
      exact yields_stringBody_escape (he _) ih

/-! ## Values -/

/-- The text is that of a number, however large. -/
inductive IsDecimal : String → Prop
  | mk {c : Char} {cs : List Char} {d : Decimal} (hc : (c = '-' || c.isDigit) = true)
      (hcs : ∀ c ∈ cs, isNumberChar c = true) (hd : Decimal.ofChars? (c :: cs) = some d) :
    IsDecimal (String.ofList (c :: cs))

/-- The text is that of a number which is not too large. -/
inductive IsNumber : String → Prop
  | mk {c : Char} {cs : List Char} {d : Decimal} (hc : (c = '-' || c.isDigit) = true)
      (hcs : ∀ c ∈ cs, isNumberChar c = true) (hd : Decimal.ofChars? (c :: cs) = some d)
      (hlimit : d.isTooLarge = false) : IsNumber (String.ofList (c :: cs))

theorem IsNumber.isDecimal {digits : String} (h : IsNumber digits) : IsDecimal digits := by
  cases h with
  | mk hc hcs hd _ => exact .mk hc hcs hd

mutual

/-- The numbers in the value are numbers, however large, and members of objects stand in ascending
order. -/
def Spelled : Json → Prop
  | .number digits => IsDecimal digits
  | .array items => SpelledItems items
  | .object members => Ascending members ∧ SpelledMembers members
  | _ => True
termination_by structural j => j

def SpelledItems : List Json → Prop
  | [] => True
  | j :: rest => j.Spelled ∧ SpelledItems rest
termination_by structural items => items

def SpelledMembers : List (String × Json) → Prop
  | [] => True
  | (_, j) :: rest => j.Spelled ∧ SpelledMembers rest
termination_by structural members => members

end

mutual

/-- The numbers in the value are numbers and not too large, and members of objects stand in
ascending order. -/
def Readable : Json → Prop
  | .number digits => IsNumber digits
  | .array items => ReadableItems items
  | .object members => Ascending members ∧ ReadableMembers members
  | _ => True
termination_by structural j => j

def ReadableItems : List Json → Prop
  | [] => True
  | j :: rest => j.Readable ∧ ReadableItems rest
termination_by structural items => items

def ReadableMembers : List (String × Json) → Prop
  | [] => True
  | (_, j) :: rest => j.Readable ∧ ReadableMembers rest
termination_by structural members => members

end

mutual

theorem Readable.spelled : {j : Json} → j.Readable → j.Spelled
  | .null, _ | .bool _, _ | .string _, _ => trivial
  | .number _, h => IsNumber.isDecimal h
  | .array _, h => spelledItems_of_readable h
  | .object _, h => ⟨h.1, spelledMembers_of_readable h.2⟩

theorem spelledItems_of_readable : {items : List Json} → ReadableItems items → SpelledItems items
  | [], _ => trivial
  | _ :: _, h => ⟨h.1.spelled, spelledItems_of_readable h.2⟩

theorem spelledMembers_of_readable : {members : List (String × Json)} →
    ReadableMembers members → SpelledMembers members
  | [], _ => trivial
  | _ :: _, h => ⟨h.1.spelled, spelledMembers_of_readable h.2⟩

end

theorem readableMembers_iff {members : List (String × Json)} :
    ReadableMembers members ↔ ∀ e ∈ members, e.2.Readable := by
  induction members with
  | nil => exact ⟨nofun, fun _ => trivial⟩
  | cons e members ih => rw [ReadableMembers, ih, List.forall_mem_cons]

theorem readableItems_iff {items : List Json} : ReadableItems items ↔ ∀ j ∈ items, j.Readable := by
  induction items with
  | nil => exact ⟨nofun, fun _ => trivial⟩
  | cons j items ih => rw [ReadableItems, ih, List.forall_mem_cons]

theorem ofMembers_of_ascending {members : List (String × Json)} (h : Ascending members) :
    ofMembers members = .object members := by
  rw [ofMembers, Dict.ofList_entries ⟨members, h⟩]

theorem skipBlanks_cons {c : Char} (h : isBlank c = false) (r : List Char) :
    skipBlanks (c :: r) = c :: r := by
  simp [skipBlanks, h]

theorem isBlank_of_isNumberStart {c : Char} (h : (c = '-' || c.isDigit) = true) :
    isBlank c = false := by
  simp only [isBlank, Bool.or_eq_false_iff, decide_eq_false_iff_not]
  refine ⟨⟨⟨?_, ?_⟩, ?_⟩, ?_⟩ <;> (rintro rfl; exact absurd h (by decide))

/-- The text of a value begins with a character that is no blank and closes nothing. -/
theorem exists_chars_eq {j : Json} (h : j.Spelled) :
    ∃ c r, j.chars = c :: r ∧ isBlank c = false ∧ c ≠ ']' := by
  cases j with
  | null => exact ⟨_, _, rfl, by decide, by decide⟩
  | bool b => cases b <;> exact ⟨_, _, rfl, by decide, by decide⟩
  | number digits =>
    cases h with
    | @mk c cs d hc hcs hd =>
      refine ⟨c, cs, String.toList_ofList, isBlank_of_isNumberStart hc, ?_⟩
      rintro rfl
      exact absurd hc (by decide)
  | string s => exact ⟨_, _, rfl, by decide, by decide⟩
  | array items => exact ⟨_, _, rfl, by decide, by decide⟩
  | object members => exact ⟨_, _, rfl, by decide, by decide⟩

theorem skipBlanks_chars {j : Json} (h : j.Spelled) (r : List Char) :
    skipBlanks (j.chars ++ r) = j.chars ++ r := by
  obtain ⟨c, r', hc, hblank, -⟩ := exists_chars_eq h
  rw [hc, List.cons_append, skipBlanks_cons hblank]

/-! ## Arrays and objects -/

theorem yields_array_nil (depth : Nat) (rest : List Char) :
    Yields (valueAt (depth + 1) ('[' :: ']' :: rest)) (.array []) rest := by
  have hskip : skipBlanks (']' :: rest) = ']' :: rest := skipBlanks_cons (by decide) rest
  rw [valueAt]
  split
  · rename_i r h
    cases hskip.symm.trans h
    exact ⟨_, rfl⟩
  · rename_i h
    exact (h _ hskip).elim

theorem yields_array {depth : Nat} {j : Json} (hj : j.Readable) {r : List Char} {items : List Json}
    {rest : List Char} (h : Yields (itemsAt depth (j.chars ++ r)) items rest) :
    Yields (valueAt (depth + 1) ('[' :: (j.chars ++ r))) (.array items) rest := by
  have hskip := skipBlanks_chars hj.spelled r
  obtain ⟨c, r', hc, -, hclose⟩ := exists_chars_eq hj.spelled
  rw [valueAt]
  split
  · rename_i r'' h'
    rw [hskip, hc] at h'
    exact (hclose (List.cons.inj h').1).elim
  · rw [← hskip] at h
    exact h.bind fun _ => ⟨_, rfl⟩

section

variable {depth : Nat} {j : Json} {items : List Json} {members : List (String × Json)}
  {cs r t rest : List Char}

/-- Behind an item comes the end of the array, or a comma and the other items. -/
theorem yields_items (hj : Yields (valueAt depth cs) j t)
    (ht : t = ']' :: rest ∧ items = [] ∨
      ∃ r, t = ',' :: r ∧ skipBlanks r = r ∧ Yields (itemsAt depth r) items rest) :
    Yields (itemsAt depth cs) (j :: items) rest := by
  rw [itemsAt]
  refine hj.bind fun _ => ?_
  rcases ht with ⟨rfl, rfl⟩ | ⟨r, rfl, hr, hitems⟩
  · have hskip : skipBlanks (']' :: rest) = ']' :: rest := skipBlanks_cons (by decide) rest
    dsimp only
    split
    · rename_i h
      cases hskip.symm.trans h
      exact ⟨_, rfl⟩
    · rename_i h
      cases hskip.symm.trans h
    · rename_i h _
      exact (h _ hskip).elim
  · have hskip : skipBlanks (',' :: r) = ',' :: r := skipBlanks_cons (by decide) r
    dsimp only
    split
    · rename_i h
      cases hskip.symm.trans h
    · rename_i h
      cases hskip.symm.trans h
      rw [← hr] at hitems
      exact hitems.bind fun _ => ⟨_, rfl⟩
    · rename_i _ h
      exact (h _ hskip).elim

theorem quoted_append (k : String) (r : List Char) :
    quoted k ++ r = '"' :: (k.toList.flatMap escapeChar ++ '"' :: r) := by
  simp [quoted]

/-- Behind a member comes the end of the object, or a comma and the other members. -/
theorem yields_members {k : String} (hr : skipBlanks r = r) (hj : Yields (valueAt depth r) j t)
    (ht : t = '}' :: rest ∧ members = [] ∨
      ∃ r, t = ',' :: r ∧ skipBlanks r = r ∧ Yields (membersAt depth r) members rest) :
    Yields (membersAt depth (quoted k ++ ':' :: r)) ((k, j) :: members) rest := by
  have hcolon : skipBlanks (':' :: r) = ':' :: r := skipBlanks_cons (by decide) r
  rw [quoted_append, membersAt]
  refine (yields_stringBody k.toList (':' :: r)).bind fun _ => ?_
  dsimp only
  rw [String.ofList_toList]
  split
  · rename_i h
    cases hcolon.symm.trans h
    rw [← hr] at hj
    refine hj.bind fun _ => ?_
    rcases ht with ⟨rfl, rfl⟩ | ⟨r', rfl, hr', hmembers⟩
    · have hskip : skipBlanks ('}' :: rest) = '}' :: rest := skipBlanks_cons (by decide) rest
      dsimp only
      split
      · rename_i h
        cases hskip.symm.trans h
        exact ⟨_, rfl⟩
      · rename_i h
        cases hskip.symm.trans h
      · rename_i h _
        exact (h _ hskip).elim
    · have hskip : skipBlanks (',' :: r') = ',' :: r' := skipBlanks_cons (by decide) r'
      dsimp only
      split
      · rename_i h
        cases hskip.symm.trans h
      · rename_i h
        cases hskip.symm.trans h
        rw [← hr'] at hmembers
        exact hmembers.bind fun _ => ⟨_, rfl⟩
      · rename_i _ h
        exact (h _ hskip).elim
  · rename_i h
    exact (h _ hcolon).elim

end

theorem yields_object_nil (depth : Nat) (rest : List Char) :
    Yields (valueAt (depth + 1) ('{' :: '}' :: rest)) (.object []) rest := by
  have hskip : skipBlanks ('}' :: rest) = '}' :: rest := skipBlanks_cons (by decide) rest
  rw [valueAt]
  split
  · rename_i r h
    cases hskip.symm.trans h
    exact ⟨_, rfl⟩
  · rename_i h
    exact (h _ hskip).elim

theorem yields_object {depth : Nat} {k : String} {r rest : List Char}
    {members : List (String × Json)} (hmembers : Ascending members)
    (h : Yields (membersAt depth (quoted k ++ r)) members rest) :
    Yields (valueAt (depth + 1) ('{' :: (quoted k ++ r))) (.object members) rest := by
  have hskip : skipBlanks (quoted k ++ r) = quoted k ++ r := skipBlanks_cons (by decide) _
  rw [valueAt]
  split
  · rename_i h'
    cases hskip.symm.trans h'
  · rw [← hskip] at h
    refine h.bind fun _ => ?_
    dsimp only
    rw [ofMembers_of_ascending hmembers]
    exact ⟨_, rfl⟩

/-! ## Words and numbers -/

theorem yields_word (depth : Nat) {c : Char} {r rest : List Char} {j : Json}
    (hc : c = 'n' ∨ c = 't' ∨ c = 'f') (h : Yields (wordAt (c :: r)) j rest) :
    Yields (valueAt depth (c :: r)) j rest := by
  have hno : (c = '-' || c.isDigit) = false ∧ c ≠ '"' ∧ c ≠ '[' ∧ c ≠ '\x7b' := by
    rcases hc with rfl | rfl | rfl <;> decide
  obtain ⟨hnumber, hquote, hbracket, hbrace⟩ := hno
  rw [valueAt]
  · rw [hnumber]
    exact h
  · exact hquote
  · exact hbracket
  · exact hbrace

/-- No number goes on at the front of the text. -/
def EndsNumber (rest : List Char) : Prop := ∀ c ∈ rest.head?, isNumberChar c = false

theorem endsNumber_cons {c : Char} (h : isNumberChar c = false) (r : List Char) :
    EndsNumber (c :: r) := by
  simpa [EndsNumber] using h

theorem yields_number (depth : Nat) {digits : String} (h : IsNumber digits) {rest : List Char}
    (hrest : EndsNumber rest) :
    Yields (valueAt depth (digits.toList ++ rest)) (.number digits) rest := by
  cases h with
  | @mk c cs d hc hcs hd hlimit =>
    have htail : rest.takeWhile isNumberChar = [] ∧ rest.dropWhile isNumberChar = rest := by
      cases rest with
      | nil => exact ⟨rfl, rfl⟩
      | cons c r => simp [hrest c rfl]
    have hother : c ≠ '"' ∧ c ≠ '[' ∧ c ≠ '\x7b' := by
      refine ⟨?_, ?_, ?_⟩ <;> (rintro rfl; exact absurd hc (by decide))
    obtain ⟨hquote, hbracket, hbrace⟩ := hother
    rw [String.toList_ofList, List.cons_append, valueAt]
    · rw [if_pos hc, numberAt]
      simp only [List.takeWhile_append_of_pos hcs, htail.1, List.append_nil, hd, hlimit,
        List.dropWhile_append_of_pos hcs, htail.2, Bool.false_eq_true, if_false]
      exact ⟨_, rfl⟩
    · exact hquote
    · exact hbracket
    · exact hbrace

/-! ## Texts -/

mutual

/-- A value is read from its text, whatever stands behind it. -/
theorem yields_chars {depth : Nat} : (j : Json) → j.Readable → j.depth ≤ depth →
    ∀ rest, EndsNumber rest → Yields (valueAt depth (j.chars ++ rest)) j rest
  | .null, _, _, _, _ => yields_word depth (.inl rfl) ⟨_, rfl⟩
  | .bool true, _, _, _, _ => yields_word depth (.inr (.inl rfl)) ⟨_, rfl⟩
  | .bool false, _, _, _, _ => yields_word depth (.inr (.inr rfl)) ⟨_, rfl⟩
  | .number _, h, _, _, hrest => yields_number depth h hrest
  | .string s, _, _, rest, _ => by
    show Yields (valueAt depth (quoted s ++ rest)) _ _
    rw [quoted_append, valueAt]
    refine (yields_stringBody s.toList rest).bind fun _ => ?_
    dsimp only
    rw [String.ofList_toList]
    exact ⟨_, rfl⟩
  | .array items, h, hd, rest, _ => by
    obtain ⟨depth, rfl⟩ : ∃ d, depth = d + 1 := ⟨depth - 1, by rw [Json.depth] at hd; omega⟩
    have hd : depthOfItems items ≤ depth := Nat.le_of_succ_le_succ hd
    show Yields (valueAt _ ('[' :: ((itemChars items ++ [']']) ++ rest))) _ _
    rw [List.append_assoc]
    cases items with
    | nil => exact yields_array_nil depth rest
    | cons j items =>
      have hitems := yields_itemChars (j :: items) (by simp) h hd rest
      rw [itemChars, List.append_assoc] at hitems ⊢
      exact yields_array h.1 hitems
  | .object members, h, hd, rest, _ => by
    obtain ⟨depth, rfl⟩ : ∃ d, depth = d + 1 := ⟨depth - 1, by rw [Json.depth] at hd; omega⟩
    have hd : depthOfMembers members ≤ depth := Nat.le_of_succ_le_succ hd
    obtain ⟨hascending, h⟩ := h
    show Yields (valueAt _ ('{' :: ((memberChars members ++ ['}']) ++ rest))) _ _
    rw [List.append_assoc]
    cases members with
    | nil => exact yields_object_nil depth rest
    | cons e members =>
      have hmembers := yields_memberChars (e :: members) (by simp) h hd rest
      rw [memberChars, List.append_assoc] at hmembers ⊢
      exact yields_object hascending hmembers
termination_by j => sizeOf j

theorem yields_itemChars {depth : Nat} : (items : List Json) → items ≠ [] →
    ReadableItems items → depthOfItems items ≤ depth →
      ∀ rest, Yields (itemsAt depth (itemChars items ++ ']' :: rest)) items rest
  | [], hne, _, _, _ => (hne rfl).elim
  | [j], _, h, hd, rest => by
    have hj := yields_chars j h.1 (Nat.max_le.1 hd).1 (']' :: rest)
      (endsNumber_cons (by decide) _)
    rw [itemChars, restChars, List.append_nil]
    exact yields_items hj (.inl ⟨rfl, rfl⟩)
  | j :: j' :: items, _, h, hd, rest => by
    have hrest := yields_itemChars (j' :: items) (by simp) h.2 (Nat.max_le.1 hd).2 rest
    have hj := yields_chars j h.1 (Nat.max_le.1 hd).1
      (',' :: (itemChars (j' :: items) ++ ']' :: rest)) (endsNumber_cons (by decide) _)
    have hskip : skipBlanks (itemChars (j' :: items) ++ ']' :: rest) =
        itemChars (j' :: items) ++ ']' :: rest := by
      rw [itemChars, List.append_assoc]
      exact skipBlanks_chars h.2.1.spelled _
    rw [itemChars, List.append_assoc]
    exact yields_items hj (.inr ⟨_, rfl, hskip, hrest⟩)
termination_by items => sizeOf items

theorem yields_memberChars {depth : Nat} : (members : List (String × Json)) → members ≠ [] →
    ReadableMembers members → depthOfMembers members ≤ depth →
      ∀ rest, Yields (membersAt depth (memberChars members ++ '}' :: rest)) members rest
  | [], hne, _, _, _ => (hne rfl).elim
  | [(k, j)], _, h, hd, rest => by
    have hj := yields_chars j h.1 (Nat.max_le.1 hd).1 ('}' :: rest)
      (endsNumber_cons (by decide) _)
    rw [memberChars, restMemberChars, List.append_nil, List.append_assoc, List.cons_append]
    exact yields_members (skipBlanks_chars h.1.spelled _) hj (.inl ⟨rfl, rfl⟩)
  | (k, j) :: e :: members, _, h, hd, rest => by
    have hrest := yields_memberChars (e :: members) (by simp) h.2 (Nat.max_le.1 hd).2 rest
    have hj := yields_chars j h.1 (Nat.max_le.1 hd).1
      (',' :: (memberChars (e :: members) ++ '}' :: rest)) (endsNumber_cons (by decide) _)
    have hskip : skipBlanks (memberChars (e :: members) ++ '}' :: rest) =
        memberChars (e :: members) ++ '}' :: rest := by
      rw [memberChars, List.append_assoc]
      exact skipBlanks_cons (by decide) _
    rw [memberChars, List.append_assoc, List.cons_append, List.append_assoc]
    exact yields_members (skipBlanks_chars h.1.spelled _) hj (.inr ⟨_, rfl, hskip, hrest⟩)
termination_by members => sizeOf members

end

/-- A value is read from its text. -/
theorem read?_text {j : Json} (h : j.Readable) (hd : j.depth ≤ maxDepth) :
    read? j.text = some j := by
  have hskip : skipBlanks j.text.toList = j.chars := by
    rw [text, String.toList_ofList]
    have hskip := skipBlanks_chars h.spelled []
    rwa [List.append_nil] at hskip
  have hj : Yields (valueAt maxDepth (skipBlanks j.text.toList)) j [] := by
    have hj := yields_chars j h hd [] (by simp [EndsNumber])
    rwa [List.append_nil, ← hskip] at hj
  obtain ⟨hlt, hj⟩ := hj
  rw [read?, hj]
  rfl

/-- Values of the same text are equal, however deep they are nested. -/
theorem eq_of_text_eq {j j' : Json} (h : j.Readable) (h' : j'.Readable) (htext : j.text = j'.text) :
    j = j' := by
  have hends : EndsNumber [] := by simp [EndsNumber]
  have hchars : j.chars = j'.chars := String.ofList_injective htext
  have hj := yields_chars j h (Nat.le_max_left j.depth j'.depth) [] hends
  rw [hchars] at hj
  obtain ⟨_, hj⟩ := hj
  obtain ⟨_, hj'⟩ := yields_chars j' h' (Nat.le_max_right j.depth j'.depth) [] hends
  cases hj.symm.trans hj'
  rfl

/-! ## What is read -/

/-- If the reading gives a value, `P` holds of it. -/
def Holds {n : Nat} {α : Type} (r : Option (Front n α)) (P : α → Prop) : Prop :=
  ∀ x ∈ r, P x.value

theorem Holds.bind {n m : Nat} {α β : Type} {r : Option (Front n α)} {P : α → Prop} {Q : β → Prop}
    {f : Front n α → Option (Front m β)} (h : Holds r P) (hf : ∀ x, P x.value → Holds (f x) Q) :
    Holds (r >>= f) Q := by
  intro y hy
  obtain ⟨x, hx, hy⟩ := Option.bind_eq_some_iff.1 hy
  exact hf x (h x hx) y hy

theorem Holds.some {n : Nat} {α : Type} {x : Front n α} {P : α → Prop} (h : P x.value) :
    Holds (some x) P := by
  rintro _ ⟨⟩
  exact h

theorem holds_none {n : Nat} {α : Type} {P : α → Prop} : Holds (none : Option (Front n α)) P :=
  nofun

theorem holds_true {n : Nat} {α : Type} (r : Option (Front n α)) : Holds r fun _ => True :=
  fun _ _ => trivial

theorem readable_ofMembers {members : List (String × Json)}
    (h : ∀ e ∈ members, e.2.Readable) : (ofMembers members).Readable :=
  ⟨(Dict.ofList members).ascending,
    readableMembers_iff.2 fun e he => h e (Dict.mem_of_mem_ofList he)⟩

theorem holds_numberAt {c : Char} (hc : (c = '-' || c.isDigit) = true) (cs : List Char) :
    Holds (numberAt c cs) Readable := by
  unfold numberAt
  dsimp only
  split
  · exact holds_none
  · rename_i d hd
    split
    · exact holds_none
    · rename_i hlimit
      refine Holds.some (.mk hc (fun c hc => ?_) hd (Bool.eq_false_iff.2 hlimit))
      exact List.all_eq_true.1 List.all_takeWhile c hc

theorem holds_wordAt (cs : List Char) : Holds (wordAt cs) Readable := by
  unfold wordAt
  split
  · exact Holds.some trivial
  · exact Holds.some trivial
  · exact Holds.some trivial
  · exact holds_none

mutual

theorem holds_valueAt (depth : Nat) (cs : List Char) : Holds (valueAt depth cs) Readable := by
  unfold valueAt
  split
  · exact (holds_true _).bind fun _ _ => Holds.some trivial
  · rename_i r
    split
    · exact holds_none
    · split
      · exact Holds.some trivial
      · have hle := skipBlanks_length_le r
        exact (holds_itemsAt _ (skipBlanks r)).bind fun _ h => Holds.some h
  · rename_i r
    split
    · exact holds_none
    · split
      · exact Holds.some ⟨.nil, trivial⟩
      · have hle := skipBlanks_length_le r
        refine (holds_membersAt _ (skipBlanks r)).bind fun _ h => Holds.some ?_
        exact readable_ofMembers (readableMembers_iff.1 h)
  · split
    · rename_i hc
      exact holds_numberAt hc _
    · exact holds_wordAt _
  · exact holds_none
termination_by (cs.length, 0)
decreasing_by
  all_goals
    subst_vars
    exact Prod.Lex.left _ _ (Nat.lt_succ_of_le hle)

theorem holds_itemsAt (depth : Nat) (cs : List Char) :
    Holds (itemsAt depth cs) ReadableItems := by
  unfold itemsAt
  refine (holds_valueAt depth cs).bind fun x hx => ?_
  obtain ⟨j, r, h⟩ := x
  dsimp only
  split
  · exact Holds.some ⟨hx, trivial⟩
  · rename_i r' hs
    have hr := Nat.lt_of_le_of_lt (skipBlanks_length_le r')
      (Nat.lt_trans (length_lt_of_skipBlanks_eq hs) h)
    exact (holds_itemsAt depth (skipBlanks r')).bind fun _ h => Holds.some ⟨hx, h⟩
  · exact holds_none
termination_by (cs.length, 1)

theorem holds_membersAt (depth : Nat) (cs : List Char) :
    Holds (membersAt depth cs) ReadableMembers := by
  unfold membersAt
  split
  · refine (holds_true _).bind fun x _ => ?_
    obtain ⟨k, r, h⟩ := x
    dsimp only
    split
    · rename_i r' hs
      have hr := Nat.lt_of_le_of_lt (skipBlanks_length_le r')
        (Nat.lt_trans (length_lt_of_skipBlanks_eq hs) h)
      refine (holds_valueAt depth (skipBlanks r')).bind fun x hx => ?_
      obtain ⟨j, t, ht⟩ := x
      dsimp only
      split
      · exact Holds.some ⟨hx, trivial⟩
      · rename_i t' hts
        have hu := Nat.lt_of_le_of_lt (skipBlanks_length_le t')
          (Nat.lt_trans (Nat.lt_trans (length_lt_of_skipBlanks_eq hts) ht) hr)
        exact (holds_membersAt depth (skipBlanks t')).bind fun _ h => Holds.some ⟨hx, h⟩
      · exact holds_none
    · exact holds_none
  · exact holds_none
termination_by (cs.length, 1)

end

/-- Whatever is read from a text can be read from a text of its own. -/
theorem readable_of_read? {text : String} {j : Json} (h : read? text = some j) : j.Readable := by
  obtain ⟨x, hx, h⟩ := Option.bind_eq_some_iff.1 h
  have hj := holds_valueAt maxDepth _ x hx
  dsimp only at h
  split at h
  · cases h
    exact hj
  · cases h

end CedarSchema.Json
