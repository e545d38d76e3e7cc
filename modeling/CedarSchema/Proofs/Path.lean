import CedarSchema.Path

/-
  Paths and the texts that spell them. A text is cut at its double colons as they are found from
  left to right, whatever colons stand beside them (`cutAtDoubleColons_iff`), and joining the parts
  gives the text again (`Path.text_ofText`). The segments of a path are found again in its text if
  none of them holds a colon (`Path.ofText_text`); a colon at the end of a segment would be taken
  for the first half of the separator. The namespace and the last segment make up the full name,
  unless the namespace is spelled like the root (`Path.qualify_namespaceText`).
-/

namespace CedarSchema

open Text

/-! ## Joining -/

theorem join_cons {sep s : String} {rest : List String} (h : rest ≠ []) :
    join sep (s :: rest) = s ++ sep ++ join sep rest := by
  cases rest with
  | nil => exact (h rfl).elim
  | cons t rest => rfl

theorem join_concat {sep : String} {texts : List String} (h : texts ≠ []) (last : String) :
    join sep (texts ++ [last]) = join sep texts ++ sep ++ last := by
  induction texts with
  | nil => exact (h rfl).elim
  | cons s rest ih =>
    rw [List.cons_append, join_cons (List.append_ne_nil_of_right_ne_nil _ (List.cons_ne_nil _ _))]
    by_cases hrest : rest = []
    · rw [hrest]
      rfl
    · rw [ih hrest, join_cons hrest]
      simp only [String.append_assoc]

theorem join_ne_empty {sep : String} {texts : List String} (h : texts ≠ [])
    (hne : ∀ s ∈ texts, s ≠ "") : join sep texts ≠ "" := by
  cases texts with
  | nil => exact (h rfl).elim
  | cons s rest =>
    have hs : s ≠ "" := hne s List.mem_cons_self
    by_cases hrest : rest = []
    · rwa [hrest]
    · rw [join_cons hrest, String.append_assoc]
      exact fun hempty => hs (String.append_eq_empty_iff.1 hempty).1

/-! ## Cutting -/

namespace Text

/-- The parts of a text that is cut at its double colons from left to right: a part reaches up to
the first double colon, and what stands behind that is cut in turn. -/
inductive CutAtDoubleColons : List Char → List (List Char) → Prop
  | uncut {cs : List Char} (h : ∀ front back, cs ≠ front ++ ':' :: ':' :: back) :
      CutAtDoubleColons cs [cs]
  | cut {part rest : List Char} {parts : List (List Char)}
      (hfirst : ∀ front back, part ++ ':' :: ':' :: rest = front ++ ':' :: ':' :: back →
        part.length ≤ front.length)
      (hrest : CutAtDoubleColons rest parts) :
      CutAtDoubleColons (part ++ ':' :: ':' :: rest) (part :: parts)

end Text

theorem splitDoubleColons_ne_nil (cs : List Char) : splitDoubleColons cs ≠ [] := by
  fun_induction splitDoubleColons cs <;> simp

theorem splitDoubleColons_of_uncut {cs : List Char}
    (h : ∀ front back, cs ≠ front ++ ':' :: ':' :: back) : splitDoubleColons cs = [cs] := by
  induction cs with
  | nil => rfl
  | cons c cs ih =>
    rw [splitDoubleColons, ih fun front back heq => h (c :: front) back (congrArg (c :: ·) heq)]
    rintro r rfl rfl
    exact h [] r rfl

theorem splitDoubleColons_of_first {part rest : List Char}
    (h : ∀ front back, part ++ ':' :: ':' :: rest = front ++ ':' :: ':' :: back →
      part.length ≤ front.length) :
    splitDoubleColons (part ++ ':' :: ':' :: rest) = part :: splitDoubleColons rest := by
  induction part with
  | nil => rfl
  | cons c part ih =>
    have hpart : ∀ front back, part ++ ':' :: ':' :: rest = front ++ ':' :: ':' :: back →
        part.length ≤ front.length := fun front back heq =>
      Nat.le_of_succ_le_succ (h (c :: front) back (congrArg (c :: ·) heq))
    rw [List.cons_append, splitDoubleColons, ih hpart]
    -- A double colon that takes in `c` would stand in front of the one behind the part.
    rintro r rfl heq
    exact absurd (h [] r (congrArg (':' :: ·) heq)) (by simp)

/-- If no double colon begins with the first character, those of the text are those of the rest. -/
theorem exists_front_of_cons {c : Char} {cs front back : List Char}
    (hc : ∀ r, c = ':' → cs = ':' :: r → False) (h : c :: cs = front ++ ':' :: ':' :: back) :
    ∃ front', front = c :: front' ∧ cs = front' ++ ':' :: ':' :: back := by
  cases front with
  | nil =>
    obtain ⟨hcolon, hback⟩ := List.cons.inj h
    exact (hc back hcolon hback).elim
  | cons d front =>
    obtain ⟨rfl, hback⟩ := List.cons.inj h
    exact ⟨front, rfl, hback⟩

theorem cutAtDoubleColons_split (cs : List Char) :
    CutAtDoubleColons cs (splitDoubleColons cs) := by
  fun_induction splitDoubleColons cs with
  | case1 => exact .uncut fun front back heq => by simp at heq
  | case2 r ih => exact @CutAtDoubleColons.cut [] r _ (fun front _ _ => Nat.zero_le front.length) ih
  | case3 c r hc part parts hr ih =>
    rw [hr] at ih
    cases ih with
    | uncut h =>
      refine .uncut fun front back heq => ?_
      obtain ⟨front, -, hback⟩ := exists_front_of_cons hc heq
      exact h front back hback
    | cut hfirst hrest =>
      refine @CutAtDoubleColons.cut (c :: part) _ _ (fun front back heq => ?_) hrest
      obtain ⟨front, rfl, hback⟩ := exists_front_of_cons hc heq
      exact Nat.succ_le_succ (hfirst front back hback)
  | case4 c r _ hr _ => exact (splitDoubleColons_ne_nil r hr).elim

/-- A text is cut at its double colons in one way. -/
theorem cutAtDoubleColons_iff {cs : List Char} {parts : List (List Char)} :
    CutAtDoubleColons cs parts ↔ splitDoubleColons cs = parts := by
  constructor
  · intro h
    induction h with
    | uncut h => exact splitDoubleColons_of_uncut h
    | cut hfirst _ ih => rw [splitDoubleColons_of_first hfirst, ih]
  · rintro rfl
    exact cutAtDoubleColons_split cs

namespace Text

theorem CutAtDoubleColons.ne_nil {cs : List Char} {parts : List (List Char)}
    (h : CutAtDoubleColons cs parts) : parts ≠ [] := by
  cases h <;> exact List.cons_ne_nil _ _

theorem CutAtDoubleColons.join_eq {cs : List Char} {parts : List (List Char)}
    (h : CutAtDoubleColons cs parts) :
    join "::" (parts.map String.ofList) = String.ofList cs := by
  induction h with
  | uncut => rfl
  | @cut part rest parts _ hrest ih =>
    rw [List.map_cons, join_cons (by simpa using hrest.ne_nil), ih]
    have hsep : "::" = String.ofList [':', ':'] := rfl
    rw [hsep, String.append_assoc, ← String.ofList_append, ← String.ofList_append]
    rfl

/-- A part without colons ends at the first double colon. -/
theorem length_le_of_noColon {part rest front back : List Char} (h : ∀ c ∈ part, c ≠ ':')
    (heq : part ++ ':' :: ':' :: rest = front ++ ':' :: ':' :: back) :
    part.length ≤ front.length := by
  rcases List.append_eq_append_iff.1 heq with ⟨behind, rfl, -⟩ | ⟨behind, rfl, hbehind⟩
  · simp
  · cases behind with
    | nil => simp
    | cons c behind =>
      have hc : ':' = c := (List.cons.inj hbehind).1
      exact absurd hc.symm (h c (by simp))

end Text

theorem splitDoubleColons_of_noColon {part : List Char} (h : ∀ c ∈ part, c ≠ ':') :
    splitDoubleColons part = [part] :=
  splitDoubleColons_of_uncut fun front back heq => h ':' (by simp [heq]) rfl

theorem splitDoubleColons_append {part : List Char} (h : ∀ c ∈ part, c ≠ ':') (r : List Char) :
    splitDoubleColons (part ++ ':' :: ':' :: r) = part :: splitDoubleColons r :=
  splitDoubleColons_of_first fun _ _ heq => length_le_of_noColon h heq

/-! ## Paths -/

namespace Path

theorem text_ofText (text : String) : (ofText text).text = text := by
  rw [Path.text, ofText, (cutAtDoubleColons_split text.toList).join_eq, String.ofList_toList]

theorem segments_ofText_ne_nil (text : String) : (ofText text).segments ≠ [] := by
  simpa [ofText] using splitDoubleColons_ne_nil text.toList

theorem ofText_of_noColon {segment : String} (h : ∀ c ∈ segment.toList, c ≠ ':') :
    ofText segment = ⟨[segment]⟩ := by
  rw [ofText, splitDoubleColons_of_noColon h, List.map_singleton, String.ofList_toList]

theorem ofText_cons_of_noColon {segment : String} (h : ∀ c ∈ segment.toList, c ≠ ':')
    (rest : String) :
    ofText (segment ++ "::" ++ rest) = ⟨segment :: (ofText rest).segments⟩ := by
  have hchars : (segment ++ "::" ++ rest).toList = segment.toList ++ ':' :: ':' :: rest.toList := by
    simp
  rw [ofText, hchars, splitDoubleColons_append h, List.map_cons, String.ofList_toList]
  rfl

/-- Segments without colons are found again. -/
theorem ofText_text {p : Path} (hne : p.segments ≠ [])
    (h : ∀ s ∈ p.segments, ∀ c ∈ s.toList, c ≠ ':') : ofText p.text = p := by
  obtain ⟨segments⟩ := p
  induction segments with
  | nil => exact (hne rfl).elim
  | cons s rest ih =>
    obtain ⟨hs, hrest⟩ := List.forall_mem_cons.1 h
    by_cases hlast : rest = []
    · subst hlast
      exact ofText_of_noColon hs
    · have htext : text ⟨s :: rest⟩ = s ++ "::" ++ text ⟨rest⟩ := join_cons hlast
      rw [htext, ofText_cons_of_noColon hs, ih hlast hrest]

/-- The only segment of a name that is not qualified is the name. -/
theorem basename_eq_text {p : Path} (h : p.isQualified = false) : p.basename = p.text := by
  obtain ⟨segments⟩ := p
  cases segments with
  | nil => rfl
  | cons s rest =>
    cases rest with
    | nil => rfl
    | cons t rest => simp [isQualified] at h

/-- Qualified by its namespace, the last segment of a path gives the path. -/
theorem qualify_namespaceText {p : Path} (hne : p.segments ≠ []) (h : ∀ s ∈ p.segments, s ≠ "") :
    qualify p.namespaceText p.basename = p.text := by
  have hbasename : p.basename = p.segments.getLast hne := by
    rw [basename, List.getLast?_eq_some_getLast hne, Option.getD_some]
  have htext : p.text = join "::" (p.segments.dropLast ++ [p.basename]) := by
    rw [hbasename, List.dropLast_concat_getLast, Path.text]
  rw [htext, namespaceText]
  by_cases hfront : p.segments.dropLast = []
  · rw [hfront]
    rfl
  · have hroot : join "::" p.segments.dropLast ≠ "" :=
      join_ne_empty hfront fun s hs => h s (List.dropLast_subset _ hs)
    rw [qualify, if_neg hroot, join_concat hfront]

/-- Splitting and joining are inverse to each other. Every text is that of its path, whose segments
are the parts of the text between its double colons, empty ones among them; a path whose segments
hold no colons is that of its text; and a path without empty segments is made up of its namespace
and its last segment. -/
theorem splitting_inverts_joining (text : String) (p : Path) :
    (ofText text).text = text ∧
      (∀ parts, CutAtDoubleColons text.toList parts ↔
        (ofText text).segments = parts.map String.ofList) ∧
      (p.segments ≠ [] → (∀ s ∈ p.segments, ':' ∉ s.toList) → ofText p.text = p) ∧
      (p.segments ≠ [] → (∀ s ∈ p.segments, s ≠ "") →
        qualify p.namespaceText p.basename = p.text) := by
  refine ⟨text_ofText text, fun parts => ?_, fun hne h => ?_, qualify_namespaceText⟩
  · rw [cutAtDoubleColons_iff, ofText]
    exact (List.map_inj_right fun _ _ => String.ofList_inj.1).symm
  · exact ofText_text hne fun s hs c hc hcolon => h s hs (hcolon ▸ hc)

/-- Three colons separate as two do, and the third begins the part behind them. -/
theorem splitting_inverts_joining_accounts :
    let p : Path := ⟨["PhotoApp", "Accounts", "User"]⟩
    CutAtDoubleColons ":::a:::".toList [[], [':', 'a'], [':']] ∧
      (ofText ":::a:::").segments = ["", ":a", ":"] ∧ (ofText ":::a:::").text = ":::a:::" ∧
      ofText "PhotoApp::Accounts::User" = p ∧
      qualify "PhotoApp::Accounts" "User" = "PhotoApp::Accounts::User" := by
  intro p
  have hsegments : (ofText ":::a:::").segments = ["", ":a", ":"] := by decide
  obtain ⟨htext, hcut, hsplit, hqualify⟩ := splitting_inverts_joining ":::a:::" p
  exact ⟨(hcut _).2 hsegments, hsegments, htext, hsplit (by decide) (by decide),
    hqualify (by decide) (by decide)⟩

end Path

end CedarSchema
