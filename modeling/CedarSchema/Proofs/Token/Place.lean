import CedarSchema.Position
import Mathlib

/-
  Places in a text. The text before an offset tells at which line and column the offset stands, so a
  position says the same thing three times; it marks a text if all three agree and the offset falls
  between two characters (`Position.Marks`). Moving a position over characters keeps that
  (`marks_afterAll`). Line and column themselves have no bound; the counters of a position show them
  modulo `2 ^ 32`, and so show them exactly before that many bytes (`Position.Measures`).
-/

namespace CedarSchema

open String (utf8Len)

/-! ## Parts of a text -/

/-- The part of a text between two offsets, which count bytes. -/
def slice (text : String) (start stop : Nat) : String :=
  String.Pos.Raw.extract text ⟨start⟩ ⟨stop⟩

theorem slice_append (l m r : List Char) :
    slice (String.ofList (l ++ m ++ r)) (utf8Len l) (utf8Len (l ++ m)) = String.ofList m := by
  unfold slice
  rw [String.utf8Len_append]
  exact String.extract_of_valid l m r

theorem slice_front (l r : List Char) :
    slice (String.ofList (l ++ r)) 0 (utf8Len l) = String.ofList l := by
  have h := slice_append [] l r
  rw [List.nil_append, String.utf8Len_nil] at h
  exact h

theorem slice_behind (l r : List Char) :
    slice (String.ofList (l ++ r)) (utf8Len l) (String.ofList (l ++ r)).utf8ByteSize =
      String.ofList r := by
  have h := slice_append l r []
  rw [List.append_nil] at h
  rw [String.utf8ByteSize_ofList]
  exact h

/-! ## Lines and columns -/

/-- The characters behind the last line feed. -/
def lastLine (cs : List Char) : List Char := cs.rtakeWhile (· ≠ '\n')

/-- The line behind the characters `cs`. -/
def lineBehind (cs : List Char) : Nat := 1 + cs.count '\n'

/-- The column behind the characters `cs`. -/
def columnBehind (cs : List Char) : Nat := 1 + (lastLine cs).length

theorem length_le_utf8Len (cs : List Char) : cs.length ≤ utf8Len cs := by
  induction cs with
  | nil => exact Nat.le_refl 0
  | cons c cs ih =>
    rw [List.length_cons, String.utf8Len_cons]
    exact Nat.add_le_add ih c.utf8Size_pos

theorem lineBehind_le (cs : List Char) : lineBehind cs ≤ utf8Len cs + 1 := by
  have hcount := List.count_le_length (a := '\n') (l := cs)
  have hlength := length_le_utf8Len cs
  unfold lineBehind
  omega

theorem columnBehind_le (cs : List Char) : columnBehind cs ≤ utf8Len cs + 1 := by
  have hlast := (List.rtakeWhile_suffix (· ≠ '\n') cs).length_le
  have hlength := length_le_utf8Len cs
  unfold columnBehind lastLine
  omega

/-! ## Positions -/

namespace Position

theorem line_lt (p : Position) : p.line < 2 ^ 32 := p.lineCounter.toNat_lt

/-- The counter of lines goes round. -/
theorem line_afterAll (p : Position) (cs : List Char) :
    (p.afterAll cs).line = (p.line + cs.count '\n') % 2 ^ 32 := by
  induction cs generalizing p with
  | nil => exact (Nat.mod_eq_of_lt p.line_lt).symm
  | cons c cs ih =>
    rw [afterAll_cons, ih, after]
    by_cases hc : c = '\n'
    · have hline : (p.lineCounter + 1).toNat = (p.line + 1) % 2 ^ 32 := UInt32.toNat_add _ _
      rw [if_pos hc, line, hline, hc, List.count_cons_self, Nat.mod_add_mod]
      congr 1
      omega
    · rw [if_neg hc, List.count_cons_of_ne hc]
      rfl

theorem line_afterAll_of_not_mem {cs : List Char} (h : '\n' ∉ cs) (p : Position) :
    (p.afterAll cs).line = p.line := by
  rw [line_afterAll, List.count_eq_zero_of_not_mem h]
  exact Nat.mod_eq_of_lt p.line_lt

/-- Within one round of the counter a later line is another one. -/
theorem line_afterAll_ne {cs : List Char} (h : '\n' ∈ cs) (hcs : cs.count '\n' < 2 ^ 32)
    (p : Position) : (p.afterAll cs).line ≠ p.line := by
  have hpos := List.count_pos_iff.2 h
  have hline := p.line_lt
  rw [line_afterAll]
  omega

/-- A position is the place behind some characters: it counts their line feeds, the characters since
the last of these, and all bytes. -/
theorem afterAll_start (cs : List Char) :
    start.afterAll cs =
      ⟨UInt32.ofNat (lineBehind cs), UInt32.ofNat (columnBehind cs), utf8Len cs⟩ := by
  unfold lineBehind columnBehind
  induction cs using List.reverseRecOn with
  | nil => rfl
  | append_singleton cs c ih =>
    rw [afterAll_append, ih, afterAll_cons, afterAll_nil, after, String.utf8Len_append,
      List.count_append]
    unfold lastLine
    by_cases hc : c = '\n'
    · subst hc
      rw [if_pos rfl, List.rtakeWhile_concat_neg _ _ _ (by simp)]
      simp [UInt32.add_assoc]
    · rw [if_neg hc, List.rtakeWhile_concat_pos _ _ _ (by simpa using hc)]
      simp [hc, UInt32.add_assoc]

theorem offset_afterAll_start (cs : List Char) : (start.afterAll cs).offset = utf8Len cs := by
  rw [afterAll_start]

theorem line_afterAll_start (cs : List Char) :
    (start.afterAll cs).line = lineBehind cs % 2 ^ 32 := by
  rw [afterAll_start]
  exact UInt32.toNat_ofNat

theorem column_afterAll_start (cs : List Char) :
    (start.afterAll cs).column = columnBehind cs % 2 ^ 32 := by
  rw [afterAll_start]
  exact UInt32.toNat_ofNat

/-- The position is that behind the characters `cs`. -/
structure Measures (p : Position) (cs : List Char) : Prop where
  offset : p.offset = utf8Len cs
  line : p.line = lineBehind cs % 2 ^ 32
  column : p.column = columnBehind cs % 2 ^ 32
  /-- Before so many bytes no counter has gone round. -/
  exact : p.offset + 1 < 2 ^ 32 → p.line = lineBehind cs ∧ p.column = columnBehind cs

theorem measures_afterAll (cs : List Char) : (start.afterAll cs).Measures cs where
  offset := offset_afterAll_start cs
  line := line_afterAll_start cs
  column := column_afterAll_start cs
  exact h := by
    rw [offset_afterAll_start] at h
    rw [line_afterAll_start, column_afterAll_start]
    have hline := lineBehind_le cs
    have hcolumn := columnBehind_le cs
    exact ⟨Nat.mod_eq_of_lt (by omega), Nat.mod_eq_of_lt (by omega)⟩

/-- The position belongs to the text: its offset falls between two characters, and its line and
column are those of the offset. -/
structure Marks (p : Position) (text : String) : Prop where
  boundary : String.Pos.Raw.IsValid text ⟨p.offset⟩
  measures : p.Measures (slice text 0 p.offset).toList

theorem marks_afterAll (l r : List Char) : (start.afterAll l).Marks (String.ofList (l ++ r)) := by
  constructor
  · apply String.Pos.Raw.isValid_iff_exists_append.2
    refine ⟨String.ofList l, String.ofList r, String.ofList_append, ?_⟩
    rw [offset_afterAll_start, String.rawEndPos_ofList]
  · rw [offset_afterAll_start, slice_front, String.toList_ofList]
    exact measures_afterAll l

end Position

end CedarSchema
