/-
  Reading bytes as UTF-8. Bytes that are not UTF-8 still have a longest well-formed front part,
  which is what an error message counts lines and columns in.
-/

namespace CedarSchema.Text

/-- The well-formed characters from byte `i` on, up to the first byte that starts none. -/
def utf8Front (bytes : ByteArray) (i : Nat) : List Char :=
  match _h : bytes.utf8DecodeChar? i with
  | none => []
  | some c => c :: utf8Front bytes (i + c.utf8Size)
termination_by bytes.size - i
decreasing_by
  have := ByteArray.le_size_of_utf8DecodeChar?_eq_some _h
  have := c.utf8Size_pos
  omega

/-- The text that the bytes spell, or the longest well-formed front part of them. -/
def decodeUtf8 (bytes : ByteArray) : Except (List Char) String :=
  match String.fromUTF8? bytes with
  | some s => .ok s
  | none => .error (utf8Front bytes 0)

end CedarSchema.Text
