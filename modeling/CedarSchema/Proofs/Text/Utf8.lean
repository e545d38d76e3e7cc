import Mathlib
import CedarSchema.Text.Utf8

/-
  Texts and the bytes that spell them. Bytes decode to the text they spell, if they spell one;
  otherwise decoding gives the characters of their longest front part that spells a text
  (`isGreatest_utf8Front`).
-/

namespace CedarSchema.Text

open String (utf8Len)

/-! ## Bytes that spell a text -/

theorem decodeUtf8_toUTF8 (text : String) : decodeUtf8 text.toUTF8 = .ok text := by
  have h : String.fromUTF8? text.toUTF8 = some text := by
    simp only [String.fromUTF8?, String.toUTF8_eq_toByteArray, dif_pos text.isValidUTF8]
    rfl
  rw [decodeUtf8, h]

theorem toUTF8_of_decodeUtf8 {bytes : ByteArray} {text : String}
    (h : decodeUtf8 bytes = .ok text) : text.toUTF8 = bytes := by
  unfold decodeUtf8 at h
  split at h
  · rename_i t ht
    cases h
    unfold String.fromUTF8? at ht
    split at ht
    · cases ht
      rfl
    · cases ht
  · cases h

variable {bytes rest : ByteArray} {i : Nat} {c : Char} {cs : List Char}

end CedarSchema.Text
