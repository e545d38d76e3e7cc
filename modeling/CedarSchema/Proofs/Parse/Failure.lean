import CedarSchema.Failure
import CedarSchema.Proofs.Parse.Carried
import CedarSchema.Proofs.Parse.Comments
import CedarSchema.Proofs.Text.Utf8
import CedarSchema.Proofs.Token.Failure

/-
  Where and why a text is no schema. Every state of a reading is inside the stream of tokens of the
  text: the tokens ahead of it are the last ones of the stream, and run into the failure that the
  stream runs into (`ParseState.Within`). So a lexical failure is the one that the text runs into,
  and a grammatical one is at a token before it.
-/

namespace CedarSchema

open ParseState
open String (utf8Len)

/-! ## States inside a stream -/

/-- The tokens ahead of a front, the one looked at first. -/
def Front.stream : Front → TokenStream
  | eof pos => .eof pos
  | token t rest => .token t rest

/-- The tokens ahead are the last ones of the stream, and run into the same failure. -/
structure ParseState.Within (stream : TokenStream) (s : ParseState) : Prop where
  tokens : s.front.stream.tokens <:+ stream.tokens
  failure : s.front.stream.failure = stream.failure

/-- The failure is the one that the tokens of the stream run into, or at the start of a token. -/
def ParseError.Within (stream : TokenStream) (e : ParseError) : Prop :=
  match e.fault with
  | .lexical cause => stream.failure = some (e.pos, cause)
  | .grammatical _ => ∃ t ∈ stream.tokens, t.start = e.pos

namespace ParseState.Within

variable {stream : TokenStream}

theorem enter {pending : List Remark} {last : Position} (ahead : TokenStream)
    (htokens : ahead.tokens <:+ stream.tokens) (hfailure : ahead.failure = stream.failure) :
    Reads (ParseError.Within stream) (enter pending last ahead) fun _ s => s.Within stream := by
  induction ahead generalizing pending with
  | eof pos => exact ⟨htokens, hfailure⟩
  | failed pos e => exact hfailure.symm
  | token t rest ih =>
    rw [ParseState.enter.eq_def]
    dsimp only
    split
    · have hrest : rest.tokens <:+ stream.tokens := (List.suffix_cons t rest.tokens).trans htokens
      exact Reads.bind (ih hrest hfailure) fun _ _ _ hs => hs
    · exact ⟨htokens, hfailure⟩

theorem exists_token {s : ParseState} (hs : s.Within stream) :
    ∃ t ∈ stream.tokens, t.start = s.here := by
  obtain ⟨front, pending, last⟩ := s
  cases front with
  | eof pos => exact ⟨⟨.eof, pos, pos⟩, hs.tokens.mem List.mem_cons_self, rfl⟩
  | token t rest => exact ⟨t, hs.tokens.mem List.mem_cons_self, rfl⟩

/-- A reading stays inside the stream it begins in. -/
theorem carried (stream : TokenStream) :
    Carried (Within stream) (ParseError.Within stream) where
  step s t rest hs hf := by
    obtain ⟨htokens, hfailure⟩ := hs
    rw [hf] at htokens hfailure
    exact enter rest ((List.suffix_cons t rest.tokens).trans htokens) hfailure
  fault s hs cause := hs.exists_token
  takePending s hs := ⟨hs.tokens, hs.failure⟩
  takeInline s hs := ⟨hs.tokens, hs.failure⟩

end ParseState.Within

namespace Schema

theorem within_of_ofTokens (stream : TokenStream) :
    Ends (ParseError.Within stream) (ofTokens stream) fun _ => True := by
  have hstart : Ends (ParseError.Within stream) (ParseState.start stream) (Within stream) :=
    Reads.bindEnds (Within.enter stream (List.suffix_refl _) rfl) fun _ _ _ hs => hs
  refine Ends.bind hstart fun s hs => ?_
  exact ((Within.carried stream).fileItems s hs).imp fun _ _ => trivial

theorem within_of_parse {text : String} {e : ParseError} (h : parse text = .error e) :
    e.Within (TokenStream.ofText text) :=
  (within_of_ofTokens (.ofText text)).of_error h

end Schema

/-! ## Places in bytes -/

namespace Schema

/-- Reading a schema takes tokens one by one, and agrees with reading all of them first. -/
theorem parse_agrees_with_tokenize (text : String) :
    (∀ s, parse text = .ok s → ∃ tokens, tokenize text = .ok tokens) ∧
      (∀ pos cause, parse text = .error ⟨pos, .lexical cause⟩ →
        tokenize text = .error (pos, cause)) ∧
      (∀ pos cause f, parse text = .error ⟨pos, .grammatical cause⟩ →
        tokenize text = .error f → pos.offset < f.1.offset) ∧
      ∀ f, tokenize text = .error f → ∃ e, parse text = .error e := by
  have hok (s : Schema) (h : parse text = .ok s) : ∃ tokens, tokenize text = .ok tokens := by
    obtain ⟨tokens, htokens, -⟩ := (holds_comments text).of_ok h
    exact ⟨tokens, htokens⟩
  refine ⟨hok, fun pos cause h => ?_, fun pos cause f h hf => ?_, fun f hf => ?_⟩
  · exact tokenize_eq_error_iff.2 (within_of_parse h)
  · obtain ⟨t, ht, rfl⟩ := within_of_parse h
    exact (TokenStream.runs_ofText text).offset_lt_of_failure (tokenize_eq_error_iff.1 hf) t ht
  · cases hparse : parse text with
    | ok s =>
      obtain ⟨tokens, htokens⟩ := hok s hparse
      rw [hf] at htokens
      cases htokens
    | error e => exact ⟨e, rfl⟩

/-- The grammar fails at a token with a literal that is not closed behind it. -/
example :
    parse "entity A,; \"" =
        .error ⟨⟨1, 10, 9⟩, .grammatical (.expected [.identifier] (.punct .semicolon))⟩ ∧
      tokenize "entity A,; \"" = .error (⟨1, 12, 11⟩, .unterminatedString) :=
  ⟨by cbv, by decide +kernel⟩

end Schema

end CedarSchema
