import CedarSchema.Json.Basic
import CedarSchema.Json.Number
import CedarSchema.Text.Identifier

/-
  Reading JSON text as RFC 8259 has it, without any leniency. Arrays and objects may be nested 127
  deep. Numbers must be in the range of double precision, and escapes of surrogates must come in
  pairs. Of equal keys in an object the last counts.
-/

namespace CedarSchema.Json

/-- A value read from the front of a text, and fewer than `bound` characters left. -/
structure Front (bound : Nat) (α : Type) where
  value : α
  rest : List Char
  length_lt : rest.length < bound

/-- What is left of a text behind the blanks at its front. -/
def skipBlanks (cs : List Char) : List Char := cs.dropWhile Text.isBlank

theorem skipBlanks_length_le (cs : List Char) : (skipBlanks cs).length ≤ cs.length :=
  (List.dropWhile_sublist _).length_le

theorem length_lt_of_skipBlanks_eq {c : Char} {cs r : List Char} (h : skipBlanks cs = c :: r) :
    r.length < cs.length := by
  have hle := skipBlanks_length_le cs
  rw [h, List.length_cons] at hle
  exact hle

/-! ## Strings -/

/-- The value of a hexadecimal digit, if the character is one. -/
def hexDigitValue? (c : Char) : Option Nat :=
  if c.isDigit then some (c.toNat - '0'.toNat)
  else if 'a' ≤ c && c ≤ 'f' then some (c.toNat - 'a'.toNat + 10)
  else if 'A' ≤ c && c ≤ 'F' then some (c.toNat - 'A'.toNat + 10)
  else none

/-- The number that four hexadecimal digits write. -/
def hex4 (a b c d : Char) : Option Nat := do
  let a ← hexDigitValue? a
  let b ← hexDigitValue? b
  let c ← hexDigitValue? c
  let d ← hexDigitValue? d
  return ((a * 16 + b) * 16 + c) * 16 + d

/-- The first half of a surrogate pair. -/
def isHighSurrogate (n : Nat) : Bool := 0xD800 ≤ n && n < 0xDC00

/-- The second half of a surrogate pair. -/
def isLowSurrogate (n : Nat) : Bool := 0xDC00 ≤ n && n < 0xE000

/-- A low surrogate at the front of a text, written as an escape. -/
def lowSurrogate : List Char → Option (Nat × List Char)
  | '\\' :: 'u' :: a :: b :: c :: d :: r =>
    match hex4 a b c d with
    | some n => if isLowSurrogate n then some (n, r) else none
    | none => none
  | _ => none

/-- What follows `\u`: four digits that write a character, or a high surrogate and an escape for
the low one. -/
def unicodeEscape : List Char → Option (Char × List Char)
  | a :: b :: c :: d :: r =>
    match hex4 a b c d with
    | none => none
    | some n =>
      if isHighSurrogate n then
        (lowSurrogate r).map fun (m, r) =>
          (Char.ofNat (0x10000 + (n - 0xD800) * 0x400 + (m - 0xDC00)), r)
      else if isLowSurrogate n then none
      else some (Char.ofNat n, r)
  | _ => none

/-- What follows a backslash. -/
def escape : List Char → Option (Char × List Char)
  | '"' :: r => some ('"', r)
  | '\\' :: r => some ('\\', r)
  | '/' :: r => some ('/', r)
  | 'b' :: r => some ('\x08', r)
  | 'f' :: r => some ('\x0c', r)
  | 'n' :: r => some ('\n', r)
  | 'r' :: r => some ('\r', r)
  | 't' :: r => some ('\t', r)
  | 'u' :: r => unicodeEscape r
  | _ => none

theorem lowSurrogate_length_lt {cs : List Char} {n : Nat} {r : List Char}
    (h : lowSurrogate cs = some (n, r)) : r.length < cs.length := by
  unfold lowSurrogate at h
  split at h
  · split at h
    · split at h
      · cases h
        simp only [List.length_cons]
        omega
      · cases h
    · cases h
  · cases h

theorem unicodeEscape_length_lt {cs : List Char} {c : Char} {r : List Char}
    (h : unicodeEscape cs = some (c, r)) : r.length < cs.length := by
  unfold unicodeEscape at h
  split at h
  · split at h
    · cases h
    · split at h
      · obtain ⟨⟨m, r'⟩, hm, hr⟩ := Option.map_eq_some_iff.1 h
        have := lowSurrogate_length_lt hm
        obtain rfl := (Prod.mk.inj hr).2
        simp only [List.length_cons]
        omega
      · split at h
        · cases h
        · obtain rfl := (Prod.mk.inj (Option.some.inj h)).2
          simp only [List.length_cons]
          omega
  · cases h

theorem escape_length_lt {cs : List Char} {c : Char} {r : List Char}
    (h : escape cs = some (c, r)) : r.length < cs.length := by
  unfold escape at h
  split at h
  case h_9 =>
    have hr := unicodeEscape_length_lt h
    simp only [List.length_cons]
    omega
  all_goals cases h
  all_goals simp

/-- What follows an opening quote, through the closing one. -/
def stringBody (cs : List Char) : Option (Front (cs.length + 1) (List Char)) :=
  match cs with
  | [] => none
  | '"' :: r => some ⟨[], r, by simp only [List.length_cons]; omega⟩
  | '\\' :: r =>
    match h : escape r with
    | none => none
    | some (c, r') => do
      have := escape_length_lt h
      let ⟨s, r'', hr⟩ ← stringBody r'
      return ⟨c :: s, r'', by simp only [List.length_cons]; omega⟩
  | c :: r =>
    if c.toNat < 0x20 then none
    else do
      let ⟨s, r', hr⟩ ← stringBody r
      return ⟨c :: s, r', by simp only [List.length_cons]; omega⟩
termination_by cs.length

/-! ## Numbers and words -/

/-- The number that begins with `c` and is not too large, as it is written. It ends where no
character of numbers follows: what could follow otherwise is no JSON. -/
def numberAt (c : Char) (cs : List Char) : Option (Front (cs.length + 1) Json) :=
  let digits := c :: cs.takeWhile isNumberChar
  match Decimal.ofChars? digits with
  | none => none
  | some d =>
    if d.isTooLarge then none
    else
      some ⟨.number (String.ofList digits), cs.dropWhile isNumberChar,
        Nat.lt_succ_of_le (List.dropWhile_sublist _).length_le⟩

/-- The value that a word stands for. -/
def wordAt : (cs : List Char) → Option (Front cs.length Json)
  | 'n' :: 'u' :: 'l' :: 'l' :: r => some ⟨.null, r, by simp only [List.length_cons]; omega⟩
  | 't' :: 'r' :: 'u' :: 'e' :: r =>
    some ⟨.bool true, r, by simp only [List.length_cons]; omega⟩
  | 'f' :: 'a' :: 'l' :: 's' :: 'e' :: r =>
    some ⟨.bool false, r, by simp only [List.length_cons]; omega⟩
  | _ => none

/-! ## Values -/

mutual

/-- A value at the front of a text, which may nest arrays and objects `depth` deep. -/
def valueAt (depth : Nat) (cs : List Char) : Option (Front cs.length Json) :=
  match cs with
  | '"' :: r => do
    let ⟨s, r', h⟩ ← stringBody r
    return ⟨.string (String.ofList s), r', h⟩
  | '[' :: r =>
    match depth with
    | 0 => none
    | depth + 1 =>
      match h : skipBlanks r with
      | ']' :: r' => some ⟨.array [], r', Nat.lt_succ_of_lt (length_lt_of_skipBlanks_eq h)⟩
      | _ => do
        have hle := skipBlanks_length_le r
        let ⟨items, r', hr⟩ ← itemsAt depth (skipBlanks r)
        return ⟨.array items, r', Nat.lt_succ_of_lt (Nat.lt_of_lt_of_le hr hle)⟩
  | '{' :: r =>
    match depth with
    | 0 => none
    | depth + 1 =>
      match h : skipBlanks r with
      | '}' :: r' => some ⟨.object [], r', Nat.lt_succ_of_lt (length_lt_of_skipBlanks_eq h)⟩
      | _ => do
        have hle := skipBlanks_length_le r
        let ⟨members, r', hr⟩ ← membersAt depth (skipBlanks r)
        return ⟨.ofMembers members, r', Nat.lt_succ_of_lt (Nat.lt_of_lt_of_le hr hle)⟩
  | c :: r => if c = '-' || c.isDigit then numberAt c r else wordAt (c :: r)
  | [] => none
termination_by (cs.length, 0)
decreasing_by all_goals exact Prod.Lex.left _ _ (Nat.lt_succ_of_le hle)

/-- The items of an array from one of them on, through the closing bracket. -/
def itemsAt (depth : Nat) (cs : List Char) : Option (Front cs.length (List Json)) := do
  let ⟨j, r, h⟩ ← valueAt depth cs
  match hs : skipBlanks r with
  | ']' :: r' => some ⟨[j], r', Nat.lt_trans (length_lt_of_skipBlanks_eq hs) h⟩
  | ',' :: r' =>
    have hr := Nat.lt_of_le_of_lt (skipBlanks_length_le r')
      (Nat.lt_trans (length_lt_of_skipBlanks_eq hs) h)
    let ⟨items, r'', h'⟩ ← itemsAt depth (skipBlanks r')
    some ⟨j :: items, r'', Nat.lt_trans h' hr⟩
  | _ => none
termination_by (cs.length, 1)
decreasing_by
  · exact Prod.Lex.right _ Nat.zero_lt_one
  · exact Prod.Lex.left _ _ hr

/-- The members of an object from one of them on, through the closing brace, in the order in which
they are written. -/
def membersAt (depth : Nat) (cs : List Char) : Option (Front cs.length (List (String × Json))) :=
  match cs with
  | '"' :: cs' => do
    let ⟨key, r, h⟩ ← stringBody cs'
    match hs : skipBlanks r with
    | ':' :: r' =>
      have hr := Nat.lt_of_le_of_lt (skipBlanks_length_le r')
        (Nat.lt_trans (length_lt_of_skipBlanks_eq hs) h)
      let ⟨j, t, ht⟩ ← valueAt depth (skipBlanks r')
      match hts : skipBlanks t with
      | '}' :: t' =>
        some ⟨[(String.ofList key, j)], t',
          Nat.lt_trans (Nat.lt_trans (length_lt_of_skipBlanks_eq hts) ht) hr⟩
      | ',' :: t' =>
        have hu := Nat.lt_of_le_of_lt (skipBlanks_length_le t')
          (Nat.lt_trans (Nat.lt_trans (length_lt_of_skipBlanks_eq hts) ht) hr)
        let ⟨members, u, h'⟩ ← membersAt depth (skipBlanks t')
        some ⟨(String.ofList key, j) :: members, u, Nat.lt_trans h' hu⟩
      | _ => none
    | _ => none
  | _ => none
termination_by (cs.length, 1)
decreasing_by
  · exact Prod.Lex.left _ _ hr
  · exact Prod.Lex.left _ _ hu

end

/-- How deep arrays and objects may be nested. -/
def maxDepth : Nat := 127

/-- The value that a text spells. -/
def read? (text : String) : Option Json := do
  let ⟨j, rest, _⟩ ← valueAt maxDepth (skipBlanks text.toList)
  if (skipBlanks rest).isEmpty then some j else none

end CedarSchema.Json
