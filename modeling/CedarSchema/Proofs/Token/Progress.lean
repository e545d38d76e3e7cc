import CedarSchema.Proofs.Token.Tiling

/-
  Reading token after token, past failures and past the end. Wherever a call leaves the cursor, its
  position is that of the text ahead of it; the offset never goes back, goes on with every token
  before the end, and stays where it is once the end is reached (`LexesForward`). Since each token
  takes at least one character, one call more than there are characters reaches the end or a failure
  (`withinCalls_ofText`).
-/

namespace CedarSchema

open String (utf8Len)

namespace Cursor

/-! ## One call -/

/-- A call reads over some characters, and over one at least if it gives a token before the end. -/
theorem next_reads (c : Cursor) : ∃ front, c.rest = front ++ c.next.2.rest ∧
    c.next.2.pos = c.pos.afterAll front ∧
    ∀ t, c.next.1 = .ok t → t.lexeme ≠ .eof → front ≠ [] := by
  have hrest : c.rest = c.rest.takeWhile Text.isBlank ++
      (Lexer.scan c.skipBlanks.rest).used ++ c.next.2.rest := by
    rw [List.append_assoc]
    show c.rest = _ ++ (_ ++ (Lexer.scan c.skipBlanks.rest).rest)
    rw [Lexer.scan_append]
    exact List.takeWhile_append_dropWhile.symm
  refine ⟨_, hrest, (Position.afterAll_append _ _ _).symm, fun t ht hl hnil => ?_⟩
  have hlt := next_rest_length ht hl
  have hlength := congrArg List.length hrest
  rw [hnil, List.nil_append] at hlength
  omega

/-- At the end of a text the end is read, and the cursor stays. -/
theorem next_at_end (pos : Position) :
    next ⟨[], pos⟩ = (.ok ⟨.eof, pos, pos⟩, ⟨[], pos⟩) := rfl

theorem eq_of_next_eof {c : Cursor} {t : Token} (h : c.next.1 = .ok t) (ht : t.lexeme = .eof) :
    t = ⟨.eof, t.start, t.start⟩ ∧ c.next.2 = ⟨[], t.start⟩ := by
  unfold next at h ⊢
  dsimp only at h ⊢
  split at h
  · rename_i l hl
    cases h
    obtain rfl : l = .eof := ht
    obtain ⟨hused, hrest⟩ := Lexer.stands_of_scan hl
    rw [hused, hrest]
    exact ⟨rfl, rfl⟩
  · cases h

/-! ## Places in a text -/

/-- The text splits where the cursor stands into what has been read and what is ahead. -/
def StandsIn (c : Cursor) (text : String) : Prop :=
  ∃ front, text = String.ofList (front ++ c.rest) ∧ c.pos = Position.start.afterAll front

theorem standsIn_ofText (text : String) : (ofText text).StandsIn text :=
  ⟨[], String.ofList_toList.symm, rfl⟩

namespace StandsIn

variable {c : Cursor} {text : String}

theorem next (h : c.StandsIn text) : c.next.2.StandsIn text := by
  obtain ⟨front, htext, hpos⟩ := h
  obtain ⟨read, hrest, hnext, -⟩ := c.next_reads
  refine ⟨front ++ read, ?_, ?_⟩
  · rw [htext, hrest, List.append_assoc]
  · rw [hnext, hpos, Position.afterAll_append]

theorem marks (h : c.StandsIn text) : c.pos.Marks text := by
  obtain ⟨front, htext, hpos⟩ := h
  rw [htext, hpos]
  exact Position.marks_afterAll front c.rest

theorem ofList_rest (h : c.StandsIn text) :
    String.ofList c.rest = slice text c.pos.offset text.utf8ByteSize := by
  obtain ⟨front, htext, hpos⟩ := h
  rw [htext, hpos, Position.offset_afterAll_start, slice_behind]

theorem offset_le (h : c.StandsIn text) : c.pos.offset ≤ text.utf8ByteSize := by
  obtain ⟨front, htext, hpos⟩ := h
  rw [htext, hpos, Position.offset_afterAll_start, String.utf8ByteSize_ofList,
    String.utf8Len_append]
  exact Nat.le_add_right _ _

/-- A call moves the offset by the characters it reads over. -/
theorem offset_next (h : c.StandsIn text) : c.pos.offset ≤ c.next.2.pos.offset ∧
    ∀ t, c.next.1 = .ok t → t.lexeme ≠ .eof → c.pos.offset < c.next.2.pos.offset := by
  obtain ⟨front, -, hpos⟩ := h
  obtain ⟨read, -, hnext, hread⟩ := c.next_reads
  have hoffset : c.next.2.pos.offset = c.pos.offset + utf8Len read := by
    rw [hnext, hpos, ← Position.afterAll_append, Position.offset_afterAll_start,
      Position.offset_afterAll_start, String.utf8Len_append]
  refine ⟨by omega, fun t ht hl => ?_⟩
  have := utf8Len_pos (hread t ht hl)
  omega

end StandsIn

/-! ## Calls in a row -/

/-- The cursor behind so many calls on a text, whatever they gave. -/
def afterCalls (text : String) : Nat → Cursor
  | 0 => ofText text
  | n + 1 => (afterCalls text n).next.2

theorem standsIn_afterCalls (text : String) (n : Nat) : (afterCalls text n).StandsIn text := by
  induction n with
  | zero => exact standsIn_ofText text
  | succ n ih => exact ih.next

theorem afterCalls_of_eof {text : String} {t : Token} {n : Nat}
    (h : (afterCalls text n).next.1 = .ok t) (ht : t.lexeme = .eof) {m : Nat} (hm : n < m) :
    afterCalls text m = ⟨[], t.start⟩ := by
  induction m, hm using Nat.le_induction with
  | base => exact (eq_of_next_eof h ht).2
  | succ m _ ih => rw [afterCalls, ih, next_at_end]

end Cursor

open Cursor (afterCalls)

/-- How the calls for tokens go through a text, one after another, going on behind failures. -/
structure LexesForward (text : String) : Prop where
  /-- Before the first call and behind each, line, column and offset are those of one place. -/
  marks : ∀ n, (afterCalls text n).pos.Marks text
  inside : ∀ n, (afterCalls text n).pos.offset ≤ text.utf8ByteSize
  /-- That place is where the text ahead begins. -/
  ahead : ∀ n, String.ofList (afterCalls text n).rest =
    slice text (afterCalls text n).pos.offset text.utf8ByteSize
  monotone : Monotone fun n => (afterCalls text n).pos.offset
  advances : ∀ n t, (afterCalls text n).next.1 = .ok t → t.lexeme ≠ .eof →
    (afterCalls text n).pos.offset < (afterCalls text (n + 1)).pos.offset
  /-- Once the end is read, every later call reads it at the same position. -/
  settles : ∀ n t, (afterCalls text n).next.1 = .ok t → t.lexeme = .eof →
    ∀ m, n < m → (afterCalls text m).next.1 = .ok t ∧ (afterCalls text m).pos = t.start

theorem lexesForward (text : String) : LexesForward text := by
  have hstands := Cursor.standsIn_afterCalls text
  constructor
  · exact fun n => (hstands n).marks
  · exact fun n => (hstands n).offset_le
  · exact fun n => (hstands n).ofList_rest
  · exact monotone_nat_of_le_succ fun n => (hstands n).offset_next.1
  · exact fun n => (hstands n).offset_next.2
  · intro n t ht hl m hm
    rw [Cursor.afterCalls_of_eof ht hl hm, Cursor.next_at_end, ← (Cursor.eq_of_next_eof ht hl).1]
    exact ⟨rfl, rfl⟩

/-- A literal that its line cuts off is read over; the end is read twice at one position. -/
example : (List.range 4).map (fun n => (afterCalls "\"a\n; " n).next.1) =
    [.error (⟨1, 1, 0⟩, .unterminatedString),
      .ok ⟨.punct .semicolon, ⟨2, 1, 3⟩, ⟨2, 2, 4⟩⟩,
      .ok ⟨.eof, ⟨2, 3, 5⟩, ⟨2, 3, 5⟩⟩, .ok ⟨.eof, ⟨2, 3, 5⟩, ⟨2, 3, 5⟩⟩] := by
  decide +kernel

/-- One call on a text of spaces reads over all of them. -/
theorem afterCalls_spaces (n : Nat) :
    let text := String.ofList (List.replicate n ' ')
    (afterCalls text 1).pos.column = (1 + n) % 2 ^ 32 ∧
      1 + (lastLine (slice text 0 (afterCalls text 1).pos.offset).toList).length = 1 + n := by
  intro text
  have hblank : ∀ c ∈ List.replicate n ' ', Text.isBlank c = true := by
    intro c hc
    rw [List.eq_of_mem_replicate hc]
    rfl
  have hlast : lastLine (List.replicate n ' ') = List.replicate n ' ' :=
    List.rtakeWhile_eq_self_iff.2 fun c hc => by rw [List.eq_of_mem_replicate hc]; rfl
  have hslice := slice_front (List.replicate n ' ') []
  have hnext := Cursor.next_blanks hblank [] .start
  rw [List.append_nil] at hslice hnext
  have hpos : (afterCalls text 1).pos = Position.start.afterAll (List.replicate n ' ') := by
    show (Cursor.ofText text).next.2.pos = _
    rw [Cursor.ofText, String.toList_ofList, hnext]
    rfl
  constructor
  · rw [hpos, Position.column_afterAll_start, columnBehind, hlast, List.length_replicate]
  · rw [hpos, Position.offset_afterAll_start, hslice, String.toList_ofList, hlast,
      List.length_replicate]

/-- Behind this text the column is `2 ^ 32`, and the counter of columns shows 0. -/
theorem afterCalls_column_zero :
    let text := String.ofList (List.replicate (2 ^ 32 - 1) ' ')
    (afterCalls text 1).pos.column = 0 ∧
      1 + (lastLine (slice text 0 (afterCalls text 1).pos.offset).toList).length = 2 ^ 32 :=
  afterCalls_spaces (2 ^ 32 - 1)

/-! ## The number of calls -/

namespace TokenStream

/-- The tokens from a place on, read with at most so many calls. -/
def withinCalls : Nat → Cursor → Option TokenStream
  | 0, _ => none
  | n + 1, c =>
    match c.next with
    | (.error (pos, e), _) => some (.failed pos e)
    | (.ok t, c) => if t.lexeme = .eof then some (.eof t.start) else token t <$> withinCalls n c

theorem withinCalls_ofCursor (c : Cursor) {n : Nat} (hn : c.rest.length < n) :
    withinCalls n c = some (ofCursor c) := by
  fun_induction ofCursor c generalizing n with
  | case1 c pos e c' h =>
    obtain ⟨n, rfl⟩ := Nat.exists_eq_succ_of_ne_zero (Nat.ne_zero_of_lt hn)
    rw [withinCalls, h]
  | case2 c t c' h ht =>
    obtain ⟨n, rfl⟩ := Nat.exists_eq_succ_of_ne_zero (Nat.ne_zero_of_lt hn)
    rw [withinCalls, h]
    exact if_pos ht
  | case3 c t c' h ht hlt ih =>
    obtain ⟨n, rfl⟩ := Nat.exists_eq_succ_of_ne_zero (Nat.ne_zero_of_lt hn)
    rw [withinCalls, h]
    dsimp only
    rw [if_neg ht, ih (by omega)]
    rfl

/-- Reading with so many calls gives fewer tokens before the end. -/
theorem length_lt_of_withinCalls {n : Nat} {c : Cursor} {stream : TokenStream}
    (h : withinCalls n c = some stream) : stream.length < n := by
  induction n generalizing c stream with
  | zero => cases h
  | succ n ih =>
    rw [withinCalls] at h
    split at h
    · cases h
      exact Nat.succ_pos n
    · split at h
      · cases h
        exact Nat.succ_pos n
      · obtain ⟨rest, hrest, rfl⟩ := Option.map_eq_some_iff.1 h
        exact Nat.succ_lt_succ (ih hrest)

/-- One call more than there are characters is enough for a text. -/
theorem withinCalls_ofText (text : String) :
    withinCalls (text.length + 1) (.ofText text) = some (ofText text) := by
  refine withinCalls_ofCursor _ ?_
  show text.toList.length < _
  rw [String.length_toList]
  exact Nat.lt_succ_self _

end TokenStream

end CedarSchema
