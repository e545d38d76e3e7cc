import CedarSchema.Proofs.Parse.Writable
import CedarSchema.Proofs.Schema.Comments

/-
  What is ahead of a state, positions apart: the lexemes that the grammar speaks of, the comments
  among them, and whether the text goes on in tokens to its end. Reading over comments to the next
  token changes none of the three, and it fails only where the text does.
-/

namespace CedarSchema

/-! ## Tokens -/

/-- Whether the grammar speaks of a lexeme. -/
def Lexeme.isWord : Lexeme → Bool
  | .comment _ => false
  | .eof => false
  | _ => true

/-- The texts of the comments among tokens, with their delimiters. -/
def commentsOf (tokens : List Token) : Multiset String :=
  (tokens.map fun t => t.lexeme.remarks).sum

/-- The lexemes of tokens other than comments and the end of the text. -/
def wordsOf (tokens : List Token) : List Lexeme := (tokens.map Token.lexeme).filter Lexeme.isWord

theorem Lexeme.Readable.comment_or_isWord {l : Lexeme} (h : l.Readable) :
    (∃ text, l = .comment text) ∨ l.isWord = true := by
  cases l with
  | comment text => exact .inl ⟨text, rfl⟩
  | eof => exact h.elim
  | _ => exact .inr rfl

namespace TokenStream

/-- The comments ahead. -/
def remarks : TokenStream → Multiset String
  | eof _ => 0
  | failed _ _ => 0
  | token t rest => t.lexeme.remarks + rest.remarks

/-- The lexemes ahead that are no comments. -/
def words : TokenStream → List Lexeme
  | eof _ => []
  | failed _ _ => []
  | token t rest =>
    match t.lexeme with
    | .comment _ => rest.words
    | l => l :: rest.words

/-- The tokens go on to the end of the text. -/
def Clean : TokenStream → Prop
  | eof _ => True
  | failed _ _ => False
  | token _ rest => rest.Clean

/-- A stream has all its tokens if it is clean, and what is ahead of it are theirs. -/
theorem ends_toExcept {stream : TokenStream} (h : stream.Readable) :
    Ends (fun _ => ¬stream.Clean) stream.toExcept fun tokens =>
      stream.Clean ∧ commentsOf tokens = stream.remarks ∧ wordsOf tokens = stream.words := by
  induction stream with
  | eof pos => exact ⟨trivial, rfl, rfl⟩
  | failed pos e => exact id
  | token t rest ih =>
    obtain ⟨ht, hrest⟩ := h
    refine Ends.map ((ih hrest).imp fun tokens ⟨hc, hr, hw⟩ => ⟨hc, ?_, ?_⟩)
    · rw [commentsOf, List.map_cons, List.sum_cons, remarks, ← hr, commentsOf]
    · rw [wordsOf, List.map_cons, words]
      obtain ⟨text, hl⟩ | hl := ht.comment_or_isWord
      · rw [hl, List.filter_cons_of_neg (by simp [Lexeme.isWord])]
        exact hw
      · rw [List.filter_cons_of_pos hl]
        split
        · rename_i text hc
          rw [hc] at hl
          cases hl
        · exact congrArg (t.lexeme :: ·) hw

end TokenStream

/-! ## States -/

namespace ParseState

/-- The comments that wait to be taken and those ahead. -/
def remarks (s : ParseState) : Multiset String :=
  (s.pendingTexts : Multiset String) +
    match s.front with
    | .eof _ => 0
    | .token _ rest => rest.remarks

/-- The lexemes ahead that are no comments, from the one looked at on. -/
def words (s : ParseState) : List Lexeme :=
  match s.front with
  | .eof _ => []
  | .token t rest => t.lexeme :: rest.words

/-- The tokens ahead go on to the end of the text. -/
def Clean (s : ParseState) : Prop :=
  match s.front with
  | .eof _ => True
  | .token _ rest => rest.Clean

/-- What was ahead of a stream is ahead of the state before its first token that is no comment. -/
structure Enters (stream : TokenStream) (pending : List Remark) (s : ParseState) : Prop where
  remarks : s.remarks = (pending.map Remark.text : Multiset String) + stream.remarks
  words : s.words = stream.words
  clean : s.Clean ↔ stream.Clean

theorem ends_enter {stream : TokenStream} {pending : List Remark} {last : Position} :
    Reads (fun _ => ¬stream.Clean) (enter pending last stream) fun _ s =>
      s.Enters stream pending := by
  induction stream generalizing pending with
  | eof pos => exact ⟨rfl, rfl, Iff.rfl⟩
  | failed pos e => exact id
  | token t rest ih =>
    rw [enter.eq_def]
    dsimp only
    split
    · rename_i text hl
      refine Reads.bind ih fun _ s _ hs => ⟨?_, ?_, hs.clean⟩
      · show s.remarks = _
        rw [hs.remarks, TokenStream.remarks, hl, Lexeme.remarks, List.map_append,
          List.map_singleton, ← Multiset.coe_add, Multiset.coe_singleton, add_assoc]
      · show s.words = _
        rw [hs.words, TokenStream.words, hl]
    · rename_i hl
      refine ⟨?_, ?_, Iff.rfl⟩
      · show (pending.map Remark.text : Multiset String) + rest.remarks = _
        have ht : t.lexeme.remarks = 0 := by
          cases h : t.lexeme with
          | comment text => exact absurd h (hl text)
          | _ => rfl
        rw [TokenStream.remarks, ht, zero_add]
      · show t.lexeme :: rest.words = _
        rw [TokenStream.words]
        split
        · rename_i text h
          exact absurd h (hl text)
        · rfl

/-- At the beginning of a text all of it is ahead. -/
theorem ends_start (text : String) :
    Ends (fun _ => ¬(TokenStream.ofText text).Clean) (start (.ofText text)) fun s =>
      s.Proper ∧ s.Enters (.ofText text) [] := by
  have hstream := TokenStream.readable_ofCursor (.ofText text)
  refine Reads.bindEnds (.and ends_enter (gives_enter hstream (List.forall_mem_nil _))) ?_
  exact fun _ _ _ ⟨hs, hp, _⟩ => ⟨hp, hs⟩

variable {s : ParseState} {α : Type}

theorem lookahead_eq_head : s.lookahead = s.words.headD .eof := by
  unfold lookahead words
  cases s.front with
  | eof pos => rfl
  | token t rest => rfl

@[simp] theorem words_takeInline : s.takeInline.words = s.words := rfl

/-- A token that is read takes its lexeme from those ahead and leaves all else as it was. Reading
fails where the text does and where what is ahead is not accepted. -/
theorem reads_take_ahead {wanted : List Wanted} {accept : Lexeme → Option α}
    {E : ParseError → Prop} (hclean : ¬s.Clean → ∀ e, E e)
    (hnone : (∀ l ws, s.words = l :: ws → accept l = none) → E (s.unexpected wanted)) :
    Reads E (s.take wanted accept) fun a s' =>
      (∃ l, accept l = some a ∧ s.words = l :: s'.words) ∧ s'.remarks = s.remarks ∧
        (s'.Clean ↔ s.Clean) := by
  refine reads_take (fun t rest a hf ha => ?_) fun h => hnone fun l ws hw => ?_
  · have hc : s.Clean ↔ rest.Clean := by rw [Clean, hf]
    refine (ends_enter.impError fun e he => hclean (mt hc.1 he) e).imp fun _ s' hs => ?_
    refine ⟨⟨t.lexeme, ha, ?_⟩, ?_, hs.clean.trans hc.symm⟩
    · rw [words, hf, hs.words]
    · rw [hs.remarks, remarks, hf]
      rfl
  · cases hf : s.front with
    | eof pos =>
      rw [words, hf] at hw
      cases hw
    | token t rest =>
      rw [words, hf] at hw
      cases hw
      exact h t rest hf

end ParseState

end CedarSchema
