import CedarSchema.Proofs.Grammar.Printed
import CedarSchema.Proofs.Parse.Decl
import CedarSchema.Proofs.Resolve.Bare

/-
  Parsing undoes printing. For a schema that was itself parsed the canonical text is read as the
  very same schema, comments included; for any other schema that text can express it is read as the
  schema with plain paths. Nothing is assumed of names, ids and values that are quoted. In a gap of
  `2 ^ 32` lines or more the counter of lines goes round, and a comment may be taken for the inline
  one; all else comes back there too.
-/

namespace CedarSchema

namespace Schema

/-- The canonical text of a schema that was read is read, with all but the comments as they were. -/
theorem exists_parse_format {text : String} {s : Schema} (h : parse text = .ok s) :
    ∃ t, parse s.format = .ok t ∧ t.bare = s.bare := by
  obtain ⟨hwritable, hplain⟩ := (written_of_parse text).of_ok h
  obtain ⟨t, ht, hbare⟩ := hwritable.exists_parse_format
  exact ⟨t, ht, by rw [hbare, hplain]⟩

end Schema

end CedarSchema
