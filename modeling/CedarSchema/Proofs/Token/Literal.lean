import CedarSchema.Proofs.Token.LiteralItems

/-
  String literals are read back. Every character of a text is written as one item of a literal, a
  named escape, a hexadecimal escape or the character itself (`itemOf`). Hence `stringBody_encode`:
  the body that stands for a text is read as that text.
-/

namespace CedarSchema.Lexer

open Text

/-! ## Hexadecimal digits -/

theorem hexDigitValue_digitChar : ∀ d < 16, hexDigitValue d.digitChar = d := by decide

theorem isHexDigit_digitChar : ∀ d < 16, isHexDigit d.digitChar = true := by decide

theorem hexValue_append (ds : List Char) (d : Char) :
    hexValue (ds ++ [d]) = 16 * hexValue ds + hexDigitValue d := by
  rw [hexValue, List.foldl_append]
  rfl

theorem hexDigits_of_lt {n : Nat} (h : n < 16) : hexDigits n = [n.digitChar] :=
  Nat.toDigits_of_lt_base h

theorem hexDigits_of_le {n : Nat} (h : 16 ≤ n) :
    hexDigits n = hexDigits (n / 16) ++ [(n % 16).digitChar] :=
  Nat.toDigits_of_base_le (by decide) h

theorem hexValue_hexDigits (n : Nat) : hexValue (hexDigits n) = n := by
  induction n using Nat.strongRecOn with
  | ind n ih =>
    by_cases h : n < 16
    · have hv := hexDigitValue_digitChar n h
      rw [hexDigits_of_lt h]
      simpa [hexValue] using hv
    · rw [hexDigits_of_le (by omega), hexValue_append, ih (n / 16) (by omega),
        hexDigitValue_digitChar _ (Nat.mod_lt _ (by decide))]
      omega

theorem isHexDigit_of_mem_hexDigits {n : Nat} {c : Char} (h : c ∈ hexDigits n) :
    isHexDigit c = true := by
  induction n using Nat.strongRecOn with
  | ind n ih =>
    by_cases hn : n < 16
    · rw [hexDigits_of_lt hn, List.mem_singleton] at h
      rw [h]
      exact isHexDigit_digitChar n hn
    · rw [hexDigits_of_le (by omega), List.mem_append, List.mem_singleton] at h
      rcases h with h | h
      · exact ih (n / 16) (by omega) h
      · rw [h]
        exact isHexDigit_digitChar _ (Nat.mod_lt _ (by decide))

theorem toNat_lt_codePoints (c : Char) : c.toNat < 0x110000 := by
  rcases c.valid with h | h
  · have : c.toNat < 0xD800 := h
    omega
  · exact h.2

/-- Six digits are enough for every character. -/
theorem length_hexDigits_le (c : Char) : (hexDigits c.toNat).length ≤ 6 := by
  have := toNat_lt_codePoints c
  exact (Nat.length_toDigits_le_iff (by decide) (by decide)).2 (by omega)

theorem hexDigits_toNat (c : Char) : HexDigits (hexDigits c.toNat) where
  hex := fun _ => isHexDigit_of_mem_hexDigits
  atMostSix := length_hexDigits_le c

/-! ## Bodies of literals -/

/-- A character is written as a named escape, as a hexadecimal one, or as it is. -/
theorem encodeChar_cases (c : Char) :
    (∃ n, encodeChar c = ['\\', n] ∧ Escape [n] c) ∨ encodeChar c = hexEscape c ∨
      (encodeChar c = [c] ∧ needsEscape c = false ∧ ItemForm [c] c) := by
  by_cases hq : c = '"'
  · subst hq
    exact .inl ⟨_, rfl, .quote⟩
  by_cases hb : c = '\\'
  · subst hb
    exact .inl ⟨_, rfl, .backslash⟩
  by_cases hn : c = '\n'
  · subst hn
    exact .inl ⟨_, rfl, .lineFeed⟩
  by_cases hr : c = '\r'
  · subst hr
    exact .inl ⟨_, rfl, .carriageReturn⟩
  by_cases ht : c = '\t'
  · subst ht
    exact .inl ⟨_, rfl, .tab⟩
  by_cases h0 : c = '\x00'
  · subst h0
    exact .inl ⟨_, rfl, .null⟩
  refine .inr ?_
  simp only [encodeChar, hq, hb, hn, hr, ht, h0, if_false]
  cases hx : needsEscape c
  · exact .inr ⟨if_neg Bool.false_ne_true, rfl, .plain hq hb hn⟩
  · exact .inl (if_pos rfl)

theorem itemForm_encodeChar (c : Char) : ItemForm (encodeChar c) c := by
  obtain ⟨n, heq, h⟩ | heq | ⟨heq, -, h⟩ := encodeChar_cases c
  · exact heq ▸ .escaped h
  · rw [heq]
    exact .escaped (.unicode Nat.toDigits_ne_nil (hexDigits_toNat c) (hexValue_hexDigits c.toNat))
  · exact heq ▸ h

/-- The item that a character is written as. -/
def itemOf (c : Char) : LiteralItem := ⟨encodeChar c, c, itemForm_encodeChar c⟩

theorem spelled_map_itemOf (cs : List Char) : spelled (cs.map itemOf) = cs.flatMap encodeChar :=
  List.flatMap_map itemOf LiteralItem.spelling cs

theorem valueOf_map_itemOf (cs : List Char) : valueOf (cs.map itemOf) = cs := by
  rw [valueOf, List.map_map]
  exact List.map_id cs

theorem stringBody_encode (cs rest : List Char) :
    stringBody (cs.flatMap encodeChar ++ '"' :: rest) =
      ⟨.ok cs, cs.flatMap encodeChar ++ ['"'], rest⟩ := by
  rw [← spelled_map_itemOf, stringBody_spelled, stringBody]
  simp only [behindItems, valueOf_map_itemOf, List.append_nil]

end CedarSchema.Lexer
