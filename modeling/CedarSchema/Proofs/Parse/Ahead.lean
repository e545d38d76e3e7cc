import CedarSchema.Proofs.Parse.Reads
import CedarSchema.Proofs.Schema.Comments
import CedarSchema.Proofs.Token.Place

/-
  The states in front of a layout. Reading a lexeme leads from the state in front of it to the one
  behind it; blanks change nothing but positions. Comments in front of a layout are the ones that
  wait to be taken, and the comment that ends a line is the one that is taken as inline, as long as
  no other is a whole round of the line counter below (`Piece.LinesFit`).
-/

namespace CedarSchema

open Piece

/-! ## What a layout begins with -/

namespace Piece

/-- The first lexeme of a layout that is no comment. -/
def first : List Piece → Lexeme
  | [] => .eof
  | lexeme (.comment _) :: ps => first ps
  | lexeme l :: _ => l
  | _ :: ps => first ps

/-- The comments of a layout before its first other lexeme. -/
def leading : List Piece → List String
  | lexeme (.comment text) :: ps => text :: leading ps
  | lexeme _ :: _ => []
  | _ :: ps => leading ps
  | [] => []

section

variable {ps : List Piece} {text : String} {depth : Nat}

@[simp] theorem first_nil : first [] = .eof := rfl
@[simp] theorem first_space : first (space :: ps) = first ps := rfl
@[simp] theorem first_newline : first (newline :: ps) = first ps := rfl
@[simp] theorem first_indent : first (indent depth :: ps) = first ps := rfl
@[simp] theorem first_comment : first (comment text :: ps) = first ps := rfl
@[simp] theorem first_ident : first (ident text :: ps) = .ident text := rfl
@[simp] theorem first_str : first (str text :: ps) = .str text := rfl
@[simp] theorem first_punct {p : Punct} : first (punct p :: ps) = .punct p := rfl

@[simp] theorem leading_nil : leading [] = [] := rfl
@[simp] theorem leading_space : leading (space :: ps) = leading ps := rfl
@[simp] theorem leading_newline : leading (newline :: ps) = leading ps := rfl
@[simp] theorem leading_indent : leading (indent depth :: ps) = leading ps := rfl
@[simp] theorem leading_ident : leading (ident text :: ps) = [] := rfl
@[simp] theorem leading_str : leading (str text :: ps) = [] := rfl
@[simp] theorem leading_punct {p : Punct} : leading (punct p :: ps) = [] := rfl

@[simp] theorem first_commentLines {comments : List String} :
    first (commentLines depth comments ++ ps) = first ps := by
  induction comments with
  | nil => rfl
  | cons c cs ih => exact ih

@[simp] theorem leading_commentLines {comments : List String} :
    leading (commentLines depth comments ++ ps) = comments ++ leading ps := by
  induction comments with
  | nil => rfl
  | cons c cs ih => exact congrArg (c :: ·) ih

@[simp] theorem first_lineEnd {c : Comments} : first (lineEnd c ++ ps) = first ps := by
  rw [lineEnd]
  split <;> rfl

end

end Piece

/-! ## States -/

namespace ParseState

/-- The state in front of a layout that begins at `pos`, when the last token read ends at `last`
and the comments `pending` wait already. -/
def facing (last pos : Position) (pending : List Remark) : List Piece → ParseState
  | [] => ⟨.eof pos, pending, last⟩
  | .lexeme (.comment text) :: ps =>
    facing last (pos.behind (comment text)) (pending ++ [⟨text, pos⟩]) ps
  | .lexeme l :: ps =>
    ⟨.token ⟨l, pos, pos.behind (.lexeme l)⟩ (tokens (pos.behind (.lexeme l)) ps), pending, last⟩
  | p :: ps => facing last (pos.behind p) pending ps

variable {last pos : Position} {pending : List Remark} {ps : List Piece}

theorem reads_enter :
    Reads (fun _ => False) (enter pending last (tokens pos ps)) fun _ s =>
      s = facing last pos pending ps := by
  induction ps generalizing pos pending with
  | nil => exact rfl
  | cons p ps ih =>
    cases p with
    | lexeme l =>
      cases l with
      | comment text => exact Reads.bind ih fun _ _ _ h => h
      | _ => exact rfl
    | _ => exact ih

theorem facing_of_pending : facing last pos pending ps =
    { facing last pos [] ps with pending := pending ++ (facing last pos [] ps).pending } := by
  induction ps generalizing pos pending with
  | nil => simp [facing]
  | cons p ps ih =>
    cases p with
    | lexeme l =>
      cases l with
      | comment text =>
        rw [facing, facing, List.nil_append, ih, @ih _ [Remark.mk text pos]]
        simp
      | _ => simp [facing]
    | _ => exact ih

theorem pending_facing : (facing last pos [] ps).pending.map Remark.text = leading ps := by
  induction ps generalizing pos with
  | nil => rfl
  | cons p ps ih =>
    cases p with
    | lexeme l =>
      cases l with
      | comment text =>
        rw [facing, facing_of_pending]
        simp [leading, ih]
      | _ => rfl
    | _ => exact ih

/-- A comment that waits begins behind the blanks and comments before it. -/
theorem exists_gap_of_mem_pending {r : Remark} (hr : r ∈ (facing last pos [] ps).pending) :
    ∃ gap, gap ++ [comment r.text] <+: ps ∧ (∀ p ∈ gap, p.isFiller = true) ∧
      r.start = pos.afterAll (textOf gap).toList := by
  induction ps generalizing pos with
  | nil => cases hr
  | cons p ps ih =>
    have behind (hp : p.isFiller = true)
        (hr : r ∈ (facing last (pos.behind p) [] ps).pending) :
        ∃ gap, gap ++ [comment r.text] <+: p :: ps ∧ (∀ p ∈ gap, p.isFiller = true) ∧
          r.start = pos.afterAll (textOf gap).toList := by
      obtain ⟨gap, hgap, hfiller, hstart⟩ := ih hr
      refine ⟨p :: gap, List.cons_prefix_cons.2 ⟨rfl, hgap⟩,
        List.forall_mem_cons.2 ⟨hp, hfiller⟩, ?_⟩
      rw [hstart, textOf_cons, String.toList_append, Position.afterAll_append]
      rfl
    cases p with
    | lexeme l =>
      cases l with
      | comment text =>
        rw [facing, facing_of_pending] at hr
        rcases List.mem_cons.1 hr with rfl | hr
        · exact ⟨[], List.prefix_append [_] ps, List.forall_mem_nil _, rfl⟩
        · exact behind rfl hr
      | _ => cases hr
    | _ => exact behind rfl hr

theorem lookahead_facing : (facing last pos pending ps).lookahead = first ps := by
  induction ps generalizing pos pending with
  | nil => rfl
  | cons p ps ih =>
    cases p with
    | lexeme l =>
      cases l with
      | comment text => exact ih
      | _ => rfl
    | _ => exact ih

/-- Nothing waits but the comments that the layout begins with. -/
def Ahead (ps : List Piece) (s : ParseState) : Prop :=
  LinesFit ps ∧ ∃ last pos, s = facing last pos [] ps

/-- In front of a layout that begins where the last token read ends. -/
def Behind (ps : List Piece) (s : ParseState) : Prop :=
  LinesFit ps ∧ ∃ pos, s = facing pos pos [] ps

variable {s : ParseState}

theorem Behind.ahead (h : Behind ps s) : Ahead ps s := by
  obtain ⟨hps, pos, rfl⟩ := h
  exact ⟨hps, pos, pos, rfl⟩

/-! ## Looking -/

namespace Ahead

theorem lookahead_eq (h : Ahead ps s) : s.lookahead = first ps := by
  obtain ⟨-, last, pos, rfl⟩ := h
  exact lookahead_facing

theorem pendingTexts_eq (h : Ahead ps s) : s.pendingTexts = leading ps := by
  obtain ⟨-, last, pos, rfl⟩ := h
  exact pending_facing

theorem space (h : Ahead (.space :: ps) s) : Ahead ps s := by
  obtain ⟨hps, last, pos, rfl⟩ := h
  exact ⟨hps.tail, last, pos.behind .space, rfl⟩

theorem newline (h : Ahead (.newline :: ps) s) : Ahead ps s := by
  obtain ⟨hps, last, pos, rfl⟩ := h
  exact ⟨hps.tail, last, pos.behind .newline, rfl⟩

theorem indent {depth : Nat} (h : Ahead (.indent depth :: ps) s) : Ahead ps s := by
  obtain ⟨hps, last, pos, rfl⟩ := h
  exact ⟨hps.tail, last, pos.behind (.indent depth), rfl⟩

end Ahead

/-! ## Taking comments -/

theorem facing_commentLines {depth : Nat} {comments : List String} :
    ∃ pos' pending', facing last pos pending (commentLines depth comments ++ ps) =
      facing last pos' pending' ps := by
  induction comments generalizing pos pending with
  | nil => exact ⟨pos, pending, rfl⟩
  | cons c cs ih => exact ih

theorem takePending_facing (h : leading ps = []) :
    (facing last pos pending ps).takePending = facing last pos [] ps := by
  have hp : (facing last pos [] ps).pending = [] :=
    List.map_eq_nil_iff.1 (pending_facing.trans h)
  rw [facing_of_pending]
  generalize facing last pos [] ps = s at hp
  cases s
  cases hp
  rfl

namespace Ahead

theorem takePending_comments {depth : Nat} {comments : List String}
    (h : Ahead (commentLines depth comments ++ ps) s) (hps : leading ps = []) :
    s.pendingTexts = comments ∧ Ahead ps s.takePending := by
  obtain ⟨hfit, last, pos, rfl⟩ := h
  refine ⟨?_, hfit.append_right, ?_⟩
  · rw [pendingTexts, pending_facing, leading_commentLines, hps, List.append_nil]
  · obtain ⟨pos', pending', h⟩ := facing_commentLines
    rw [h, takePending_facing hps]
    exact ⟨last, pos', rfl⟩

theorem takePending_self (h : Ahead ps s) (hps : leading ps = []) : s.takePending = s := by
  obtain ⟨-, last, pos, rfl⟩ := h
  exact takePending_facing hps

end Ahead

theorem last_facing : (facing last pos pending ps).last = last := by
  induction ps generalizing pos pending with
  | nil => rfl
  | cons p ps ih =>
    cases p with
    | lexeme l =>
      cases l with
      | comment text => exact ih
      | _ => rfl
    | _ => exact ih

/-- No comment on another line is taken as inline. -/
theorem takeInline_of_ne (h : ∀ r ∈ s.pending, r.start.line ≠ s.last.line) :
    s.inlineText = none ∧ s.takeInline = s := by
  have hnot : ∀ r ∈ s.pending, ¬s.isInline r = true := by
    intro r hr
    simp [isInline, h r hr]
  refine ⟨?_, ?_⟩
  · rw [inlineText, List.find?_eq_none.2 hnot]
    rfl
  · rw [takeInline, List.eraseP_of_forall_not hnot]

theorem takeInline_of_cons {r : Remark} {rs : List Remark} (hs : s.pending = r :: rs)
    (hr : s.isInline r = true) :
    s.inlineText = some r.text ∧ s.takeInline = { s with pending := rs } := by
  rw [inlineText, takeInline, hs, List.find?_cons_of_pos hr, List.eraseP_cons_of_pos hr]
  exact ⟨rfl, rfl⟩

theorem isInline_behind_space {text : String} (hs : s.last = pos) :
    s.isInline ⟨text, pos.behind .space⟩ = true := by
  have hl : (pos.behind .space).line = pos.line := rfl
  have ho : (pos.behind .space).offset = pos.offset + 1 := rfl
  simp [isInline, hs, hl, ho]

/-- Behind a line feed no comment that waits is on the line of the last token read. -/
theorem line_ne_of_mem_pending (hps : LinesFit (.newline :: ps)) :
    ∀ r ∈ (facing last (pos.behind .newline) [] ps).pending, r.start.line ≠ pos.line := by
  intro r hr
  obtain ⟨gap, hgap, hfiller, hstart⟩ := exists_gap_of_mem_pending hr
  have hcount := hps (.newline :: gap) r.text (List.cons_prefix_cons.2 ⟨rfl, hgap⟩).isInfix
    (List.forall_mem_cons.2 ⟨rfl, hfiller⟩)
  have htext : (textOf (.newline :: gap)).toList = '\n' :: (textOf gap).toList := by
    rw [textOf_cons, String.toList_append]
    rfl
  rw [htext] at hcount
  have hplace : r.start = pos.afterAll ('\n' :: (textOf gap).toList) := hstart
  rw [hplace]
  exact Position.line_afterAll_ne List.mem_cons_self hcount pos

/-- The comment that ends the line of the last token read is taken as inline, and no other. -/
theorem Behind.takeInline_lineEnd {c : Comments} (h : Behind (lineEnd c ++ ps) s) :
    s.inlineText = c.inline ∧ Ahead ps s.takeInline := by
  obtain ⟨hfit, pos, rfl⟩ := h
  have hps : LinesFit ps := hfit.append_right
  unfold lineEnd at hfit ⊢
  cases hc : c.inline with
  | none =>
    rw [hc] at hfit
    have hne : ∀ r ∈ (facing pos (pos.behind .newline) [] ps).pending,
        r.start.line ≠ (facing pos (pos.behind .newline) [] ps).last.line := by
      rw [last_facing]
      exact line_ne_of_mem_pending hfit
    obtain ⟨hi, ht⟩ := takeInline_of_ne hne
    exact ⟨hi, hps, pos, pos.behind .newline, ht⟩
  | some text =>
    let pos' := ((pos.behind .space).behind (comment text)).behind .newline
    have hs : facing pos pos [] ([.space, comment text, .newline] ++ ps) =
        facing pos pos' [⟨text, pos.behind .space⟩] ps := rfl
    have hl : (facing pos pos' [⟨text, pos.behind .space⟩] ps).last = pos := last_facing
    have hp := congrArg pending (@facing_of_pending pos pos' [⟨text, pos.behind .space⟩] ps)
    obtain ⟨hi, ht⟩ := takeInline_of_cons hp (isInline_behind_space hl)
    refine ⟨hi, hps, pos, pos', ht.trans ?_⟩
    rw [facing_of_pending]
    rfl

/-! ## Reading a lexeme -/

variable {α : Type} {l : Lexeme} {wanted : List Wanted}

theorem Ahead.reads_take {accept : Lexeme → Option α} {a : α} (h : Ahead (.lexeme l :: ps) s)
    (hl : ∀ text, l ≠ .comment text) (ha : accept l = some a) :
    Reads (fun _ => False) (s.take wanted accept) fun x s' => x = a ∧ Behind ps s' := by
  obtain ⟨hps, last, pos, rfl⟩ := h
  have hf : facing last pos [] (.lexeme l :: ps) = ⟨.token ⟨l, pos, pos.behind (.lexeme l)⟩
      (tokens (pos.behind (.lexeme l)) ps), [], last⟩ := by
    cases l with
    | comment text => exact absurd rfl (hl text)
    | _ => rfl
  rw [hf]
  refine reads_take ?_ ?_
  · intro t rest a' ht ha'
    cases ht
    rw [ha] at ha'
    cases ha'
    exact reads_enter.imp fun _ s' h => ⟨rfl, hps.tail, _, h⟩
  · intro h
    have := h _ _ rfl
    rw [ha] at this
    cases this

namespace Ahead

variable {text : String} {p : Punct}

theorem reads_expectFor (h : Ahead (punct p :: ps) s) :
    Reads (fun _ => False) (s.expectFor wanted p) fun _ => Behind ps :=
  (h.reads_take (by simp) (if_pos rfl)).imp fun _ _ h => h.2

theorem reads_expect (h : Ahead (punct p :: ps) s) :
    Reads (fun _ => False) (s.expect p) fun _ => Behind ps := h.reads_expectFor

theorem reads_expectWord (h : Ahead (Piece.ident text :: ps) s) :
    Reads (fun _ => False) (s.expectWord text) fun _ => Behind ps :=
  (h.reads_take (by simp) (if_pos rfl)).imp fun _ _ h => h.2

theorem reads_ident (h : Ahead (Piece.ident text :: ps) s) :
    Reads (fun _ => False) s.ident fun x s' => x = text ∧ Behind ps s' :=
  h.reads_take (by simp) rfl

theorem reads_stringLiteral (h : Ahead (str text :: ps) s) :
    Reads (fun _ => False) s.stringLiteral fun x s' => x = text ∧ Behind ps s' :=
  h.reads_take (by simp) rfl

theorem reads_name (h : Ahead (Piece.name text :: ps) s) :
    Reads (fun _ => False) (s.name wanted) fun x s' => x = text ∧ Behind ps s' := by
  rw [Piece.name] at h
  split at h
  · exact h.reads_take (by simp) rfl
  · exact h.reads_take (by simp) rfl

end Ahead

end ParseState

end CedarSchema
