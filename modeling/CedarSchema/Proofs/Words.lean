import CedarSchema.Proofs.Parse.Agreement
import CedarSchema.Proofs.Resolve.Bare

/-
  What a text says is in its words. Texts with the same words, whatever comments and layout they
  have, are read as the same schema but for its comments, and so mean the same; or neither is read,
  for one cause.
-/

namespace CedarSchema

open Grammar

namespace Schema

variable {text₁ text₂ : String} {tokens₁ tokens₂ : List Token}

theorem agree_parse (h₁ : tokenize text₁ = .ok tokens₁) (h₂ : tokenize text₂ = .ok tokens₂)
    (hwords : wordsOf tokens₁ = wordsOf tokens₂) :
    Agree (Via Schema.bare) (parse text₁) (parse text₂) := by
  have hstart {text : String} {tokens : List Token} (h : tokenize text = .ok tokens) :
      Ends (fun _ => False) (ParseState.start (.ofText text)) (Before (wordsOf tokens)) := by
    have hstream := TokenStream.readable_ofCursor (.ofText text)
    obtain ⟨hclean, -, hw⟩ := (TokenStream.ends_toExcept hstream).of_ok h
    refine ((ParseState.ends_start text).impError fun _ h => h hclean).imp fun s ⟨_, hs⟩ => ?_
    exact ⟨hs.words.trans hw.symm, hs.clean.2 hclean⟩
  obtain ⟨s₁, hs₁, hbefore₁⟩ := (hstart h₁).exists_ok
  obtain ⟨s₂, hs₂, hbefore₂⟩ := (hstart h₂).exists_ok
  unfold parse ofTokens
  rw [hs₁, hs₂]
  exact agree_fileItems ⟨_, hbefore₁, hwords ▸ hbefore₂⟩

/-- Comments and layout mean nothing. If two texts have the same words, both are read as schemas
that are equal without their comments, resolve to the same and have the same document; or both
break the grammar in the same way. -/
theorem same_of_same_words (h₁ : tokenize text₁ = .ok tokens₁) (h₂ : tokenize text₂ = .ok tokens₂)
    (hwords : wordsOf tokens₁ = wordsOf tokens₂) :
    (∃ s₁ s₂, parse text₁ = .ok s₁ ∧ parse text₂ = .ok s₂ ∧ s₁.bare = s₂.bare ∧
      s₁.resolve = s₂.resolve ∧ s₁.document = s₂.document) ∨
    ∃ p₁ p₂ cause, parse text₁ = .error ⟨p₁, .grammatical cause⟩ ∧
      parse text₂ = .error ⟨p₂, .grammatical cause⟩ := by
  apply (agree_parse h₁ h₂ hwords).cases.imp_left
  rintro ⟨s₁, s₂, hs₁, hs₂, hbare⟩
  refine ⟨s₁, s₂, hs₁, hs₂, hbare, ?_, ?_⟩
  · calc s₁.resolve
      _ = s₁.bare.resolve := s₁.resolve_bare.symm
      _ = s₂.bare.resolve := congrArg resolve hbare
      _ = s₂.resolve := s₂.resolve_bare
  · calc s₁.document
      _ = s₁.bare.document := s₁.document_bare.symm
      _ = s₂.bare.document := congrArg document hbare
      _ = s₂.document := s₂.document_bare

/-- A comment behind a comma, at the end of a line in one text and before another word in the
other. -/
theorem same_of_same_words_record :
    let text₁ := "entity A = \x7ba: Long, // b\n\x7d;"
    let text₂ := "entity A\n/* c */ = \x7ba /* d\n */: Long,\x7d;"
    ∃ tokens₁ tokens₂, tokenize text₁ = .ok tokens₁ ∧ tokenize text₂ = .ok tokens₂ ∧
      wordsOf tokens₁ = wordsOf tokens₂ ∧
      ((∃ s₁ s₂, parse text₁ = .ok s₁ ∧ parse text₂ = .ok s₂ ∧ s₁.bare = s₂.bare ∧
        s₁.resolve = s₂.resolve ∧ s₁.document = s₂.document) ∨
      ∃ p₁ p₂ cause, parse text₁ = .error ⟨p₁, .grammatical cause⟩ ∧
        parse text₂ = .error ⟨p₂, .grammatical cause⟩) := by
  intro text₁ text₂
  have hwords : wordsOf <$> tokenize text₁ = wordsOf <$> tokenize text₂ := by decide +kernel
  have hok : (tokenize text₁).isOk = true := by decide +kernel
  cases h₁ : tokenize text₁ with
  | error e =>
    rw [h₁] at hok
    cases hok
  | ok tokens₁ =>
    cases h₂ : tokenize text₂ with
    | error e =>
      rw [h₁, h₂] at hwords
      cases hwords
    | ok tokens₂ =>
      rw [h₁, h₂] at hwords
      have hwords : wordsOf tokens₁ = wordsOf tokens₂ := Except.ok.inj hwords
      exact ⟨tokens₁, tokens₂, rfl, rfl, hwords, same_of_same_words h₁ h₂ hwords⟩

end Schema

end CedarSchema
