import CedarSchema.Proofs.Json.Text

/-
  Numbers that are too large. The text of a value is refused if a number somewhere in it is too
  large, whatever stands around the number. So the text of a value that does not nest too deep is
  read exactly if all numbers in it are in range (`read?_text_isSome_iff`).
-/

namespace CedarSchema.Json

open Text

/-! ## Refusals -/

/-- What is read first is no help if what comes behind it is refused. -/
theorem Yields.bind_eq_none {n m : Nat} {α β : Type} {r : Option (Front n α)} {a : α}
    {rest : List Char} {f : Front n α → Option (Front m β)} (h : Yields r a rest)
    (hf : ∀ h, f ⟨a, rest, h⟩ = none) : (r >>= f) = none := by
  obtain ⟨hlt, rfl⟩ := h
  exact hf hlt

theorem refuses_number (depth : Nat) {digits : String} (h : IsDecimal digits)
    (hno : ¬IsNumber digits) {rest : List Char} (hrest : EndsNumber rest) :
    valueAt depth (digits.toList ++ rest) = none := by
  cases h with
  | @mk c cs d hc hcs hd =>
    have htail : rest.takeWhile isNumberChar = [] := by
      cases rest with
      | nil => rfl
      | cons c r => simp [hrest c rfl]
    have hlarge : d.isTooLarge = true := by
      rw [← Bool.not_eq_false]
      exact fun hlimit => hno (.mk hc hcs hd hlimit)
    have hother : c ≠ '"' ∧ c ≠ '[' ∧ c ≠ '\x7b' := by
      refine ⟨?_, ?_, ?_⟩ <;> (rintro rfl; exact absurd hc (by decide))
    obtain ⟨hquote, hbracket, hbrace⟩ := hother
    rw [String.toList_ofList, List.cons_append, valueAt]
    · rw [if_pos hc, numberAt]
      simp only [List.takeWhile_append_of_pos hcs, htail, List.append_nil, hd, hlarge, if_true]
    · exact hquote
    · exact hbracket
    · exact hbrace

section

variable {depth : Nat} {j : Json} {cs r : List Char} {k : String}

theorem refuses_array (hj : j.Spelled) (h : itemsAt depth (j.chars ++ r) = none) :
    valueAt (depth + 1) ('[' :: (j.chars ++ r)) = none := by
  have hskip := skipBlanks_chars hj r
  obtain ⟨c, r', hc, -, hclose⟩ := exists_chars_eq hj
  rw [valueAt]
  split
  · rename_i r'' h'
    rw [hskip, hc] at h'
    exact (hclose (List.cons.inj h').1).elim
  · rw [← hskip] at h
    rw [h]
    rfl

theorem refuses_object (h : membersAt depth (quoted k ++ r) = none) :
    valueAt (depth + 1) ('{' :: (quoted k ++ r)) = none := by
  have hskip : skipBlanks (quoted k ++ r) = quoted k ++ r := skipBlanks_cons (by decide) _
  rw [valueAt]
  split
  · rename_i h'
    cases hskip.symm.trans h'
  · rw [← hskip] at h
    rw [h]
    rfl

theorem refuses_items (h : valueAt depth cs = none) : itemsAt depth cs = none := by
  rw [itemsAt, h]
  rfl

theorem refuses_items_rest (hj : Yields (valueAt depth cs) j (',' :: r)) (hr : skipBlanks r = r)
    (h : itemsAt depth r = none) : itemsAt depth cs = none := by
  have hskip : skipBlanks (',' :: r) = ',' :: r := skipBlanks_cons (by decide) r
  rw [itemsAt]
  refine hj.bind_eq_none fun _ => ?_
  dsimp only
  split
  · rename_i h'
    cases hskip.symm.trans h'
  · rename_i h'
    cases hskip.symm.trans h'
    rw [← hr] at h
    rw [h]
    rfl
  · rfl

theorem refuses_members (hr : skipBlanks r = r) (h : valueAt depth r = none) :
    membersAt depth (quoted k ++ ':' :: r) = none := by
  have hcolon : skipBlanks (':' :: r) = ':' :: r := skipBlanks_cons (by decide) r
  rw [quoted_append, membersAt]
  refine (yields_stringBody k.toList (':' :: r)).bind_eq_none fun _ => ?_
  dsimp only
  split
  · rename_i h'
    cases hcolon.symm.trans h'
    rw [← hr] at h
    rw [h]
    rfl
  · rfl

theorem refuses_members_rest {r' : List Char} (hr : skipBlanks r = r)
    (hj : Yields (valueAt depth r) j (',' :: r')) (hr' : skipBlanks r' = r')
    (h : membersAt depth r' = none) : membersAt depth (quoted k ++ ':' :: r) = none := by
  have hcolon : skipBlanks (':' :: r) = ':' :: r := skipBlanks_cons (by decide) r
  have hcomma : skipBlanks (',' :: r') = ',' :: r' := skipBlanks_cons (by decide) r'
  rw [quoted_append, membersAt]
  refine (yields_stringBody k.toList (':' :: r)).bind_eq_none fun _ => ?_
  dsimp only
  split
  · rename_i h'
    cases hcolon.symm.trans h'
    rw [← hr] at hj
    refine hj.bind_eq_none fun _ => ?_
    dsimp only
    split
    · rename_i h'
      cases hcomma.symm.trans h'
    · rename_i h'
      cases hcomma.symm.trans h'
      rw [← hr'] at h
      rw [h]
      rfl
    · rfl
  · rfl

end

mutual

/-- The text of a value with a number that is too large is refused, whatever stands behind it. -/
theorem refuses_chars {depth : Nat} : (j : Json) → j.Spelled → ¬j.Readable → j.depth ≤ depth →
    ∀ rest, EndsNumber rest → valueAt depth (j.chars ++ rest) = none
  | .null, _, hno, _, _, _ | .bool _, _, hno, _, _, _ | .string _, _, hno, _, _, _ =>
    (hno trivial).elim
  | .number _, h, hno, _, _, hrest => refuses_number depth h hno hrest
  | .array items, h, hno, hd, rest, _ => by
    obtain ⟨depth, rfl⟩ : ∃ d, depth = d + 1 := ⟨depth - 1, by rw [Json.depth] at hd; omega⟩
    have hd : depthOfItems items ≤ depth := Nat.le_of_succ_le_succ hd
    show valueAt _ ('[' :: ((itemChars items ++ [']']) ++ rest)) = none
    rw [List.append_assoc]
    cases items with
    | nil => exact (hno trivial).elim
    | cons j items =>
      have hitems := refuses_itemChars (j :: items) h hno hd rest
      rw [itemChars, List.append_assoc] at hitems ⊢
      exact refuses_array h.1 hitems
  | .object members, h, hno, hd, rest, _ => by
    obtain ⟨depth, rfl⟩ : ∃ d, depth = d + 1 := ⟨depth - 1, by rw [Json.depth] at hd; omega⟩
    have hd : depthOfMembers members ≤ depth := Nat.le_of_succ_le_succ hd
    obtain ⟨hascending, h⟩ := h
    have hno : ¬ReadableMembers members := fun h => hno ⟨hascending, h⟩
    show valueAt _ ('{' :: ((memberChars members ++ ['}']) ++ rest)) = none
    rw [List.append_assoc]
    cases members with
    | nil => exact (hno trivial).elim
    | cons e members =>
      have hmembers := refuses_memberChars (e :: members) h hno hd rest
      rw [memberChars, List.append_assoc] at hmembers ⊢
      exact refuses_object hmembers
termination_by j => sizeOf j

theorem refuses_itemChars {depth : Nat} : (items : List Json) → SpelledItems items →
    ¬ReadableItems items → depthOfItems items ≤ depth →
      ∀ rest, itemsAt depth (itemChars items ++ ']' :: rest) = none
  | [], _, hno, _, _ => (hno trivial).elim
  | j :: items, h, hno, hd, rest => by
    rw [itemChars, List.append_assoc]
    by_cases hj : j.Readable
    · -- The number stands further on.
      have hno : ¬ReadableItems items := fun h => hno ⟨hj, h⟩
      have hrest := refuses_itemChars items h.2 hno (Nat.max_le.1 hd).2 rest
      cases items with
      | nil => exact (hno trivial).elim
      | cons j' items =>
        have hyields := yields_chars j hj (Nat.max_le.1 hd).1
          (',' :: (itemChars (j' :: items) ++ ']' :: rest)) (endsNumber_cons (by decide) _)
        refine refuses_items_rest hyields ?_ hrest
        rw [itemChars, List.append_assoc]
        exact skipBlanks_chars h.2.1 _
    · have hends : EndsNumber (restChars items ++ ']' :: rest) := by
        cases items <;> exact endsNumber_cons (by decide) _
      exact refuses_items (refuses_chars j h.1 hj (Nat.max_le.1 hd).1 _ hends)
termination_by items => sizeOf items

theorem refuses_memberChars {depth : Nat} : (members : List (String × Json)) →
    SpelledMembers members → ¬ReadableMembers members → depthOfMembers members ≤ depth →
      ∀ rest, membersAt depth (memberChars members ++ '}' :: rest) = none
  | [], _, hno, _, _ => (hno trivial).elim
  | (k, j) :: members, h, hno, hd, rest => by
    rw [memberChars, List.append_assoc, List.cons_append, List.append_assoc]
    by_cases hj : j.Readable
    · have hno : ¬ReadableMembers members := fun h => hno ⟨hj, h⟩
      have hrest := refuses_memberChars members h.2 hno (Nat.max_le.1 hd).2 rest
      cases members with
      | nil => exact (hno trivial).elim
      | cons e members =>
        have hyields := yields_chars j hj (Nat.max_le.1 hd).1
          (',' :: (memberChars (e :: members) ++ '}' :: rest)) (endsNumber_cons (by decide) _)
        refine refuses_members_rest (skipBlanks_chars h.1 _) hyields ?_ hrest
        rw [memberChars, List.append_assoc]
        exact skipBlanks_cons (by decide) _
    · have hends : EndsNumber (restMemberChars members ++ '}' :: rest) := by
        cases members <;> exact endsNumber_cons (by decide) _
      refine refuses_members (skipBlanks_chars h.1 _) ?_
      exact refuses_chars j h.1 hj (Nat.max_le.1 hd).1 _ hends
termination_by members => sizeOf members

end

/-- A value that nests no deeper than may be read is read from its text exactly if no number in it
is too large. -/
theorem read?_text_isSome_iff {j : Json} (h : j.Spelled) (hd : j.depth ≤ maxDepth) :
    (read? j.text).isSome ↔ j.Readable := by
  constructor
  · intro hread
    by_contra hno
    have hskip : skipBlanks j.text.toList = j.chars := by
      rw [text, String.toList_ofList]
      have hskip := skipBlanks_chars h []
      rwa [List.append_nil] at hskip
    have hrefuse : valueAt maxDepth (skipBlanks j.text.toList) = none := by
      have hrefuse := refuses_chars j h hno hd [] (by simp [EndsNumber])
      rwa [List.append_nil, ← hskip] at hrefuse
    rw [read?, hrefuse] at hread
    cases hread
  · intro hj
    rw [read?_text hj hd]
    rfl

end CedarSchema.Json
