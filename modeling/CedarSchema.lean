import CedarSchema.Command.Directory
import CedarSchema.Main
import CedarSchema.Proofs.Path
import CedarSchema.Proofs.Token.Lexeme
import CedarSchema.Proofs.Token.Place
import CedarSchema.Proofs.Token.Tiling
import CedarSchema.Proofs.Token.Failure
import CedarSchema.Proofs.Token.ReadBack
import CedarSchema.Proofs.Token.LiteralGrammar
import CedarSchema.Proofs.Schema.Layout
import CedarSchema.Proofs.Outcome
import CedarSchema.Proofs.Parse.Reads
import CedarSchema.Proofs.Parse.Carried
import CedarSchema.Proofs.Parse.Ahead
import CedarSchema.Proofs.Schema.Writable
import CedarSchema.Proofs.Schema.Comments
import CedarSchema.Proofs.Parse.References
import CedarSchema.Proofs.Parse.TypeExpr
import CedarSchema.Proofs.Parse.Decl
import CedarSchema.Proofs.Parse.Writable
import CedarSchema.Proofs.RoundTrip
import CedarSchema.Proofs.Dict
import CedarSchema.Proofs.Resolve.Declarations
import CedarSchema.Proofs.Resolve.Chain
import CedarSchema.Proofs.Resolve.Lookup
import CedarSchema.Proofs.Resolve.Denotation
import CedarSchema.Proofs.Resolve.Expansion
import CedarSchema.Proofs.Resolve.Membership
import CedarSchema.Proofs.Resolve.Schema
import CedarSchema.Proofs.Resolve.Result
import CedarSchema.Proofs.Resolve.Criterion
import CedarSchema.Proofs.Resolve.IllFormed
import CedarSchema.Proofs.Resolve.Closed
import CedarSchema.Proofs.Resolve.Meaning
import CedarSchema.Proofs.Resolve.Judgement
import CedarSchema.Proofs.Resolve.Retelling
import CedarSchema.Proofs.Resolve.Rearrangement
import CedarSchema.Proofs.Resolve.Plain
import CedarSchema.Proofs.Parse.Comments
import CedarSchema.Proofs.Parse.Failure
import CedarSchema.Proofs.Grammar.Rules
import CedarSchema.Proofs.Grammar.Sound
import CedarSchema.Proofs.Grammar.Complete
import CedarSchema.Proofs.Grammar.Acceptance
import CedarSchema.Proofs.Grammar.Printed
import CedarSchema.Proofs.Parse.Agreement
import CedarSchema.Proofs.Resolve.Bare
import CedarSchema.Proofs.Words
import CedarSchema.Proofs.Text.Utf8
import CedarSchema.Proofs.Command.Directory
import CedarSchema.Proofs.Command.Formatting
import CedarSchema.Proofs.Json.Text
import CedarSchema.Proofs.Json.Range
import CedarSchema.Proofs.Document.Normal
import CedarSchema.Proofs.Document.Reader
import CedarSchema.Proofs.Document.Reading
import CedarSchema.Proofs.Document.Tidy
import CedarSchema.Proofs.Document.Declarations
import CedarSchema.Proofs.Document.Meaning
import CedarSchema.Proofs.Document.Written
import CedarSchema.Proofs.Document.Uncommented
import CedarSchema.Proofs.Document.RoundTrip
import CedarSchema.Proofs.Document.Format
import CedarSchema.Proofs.Document.Acceptance
import CedarSchema.Proofs.Document.Spelling
import CedarSchema.Proofs.Document.Printed
import CedarSchema.Proofs.Document.Reference
import CedarSchema.Proofs.Document.Names
import CedarSchema.Proofs.Parse.WellFormed
import CedarSchema.Proofs.Resolve.Extension
import CedarSchema.Proofs.Document.Respelled
import CedarSchema.Proofs.Document.Restored
import CedarSchema.Proofs.Document.Conforming
import CedarSchema.Proofs.Resolved.Identity
import CedarSchema.Proofs.Resolved.Writer
import CedarSchema.Proofs.Command.Effects
import CedarSchema.Proofs.Resolve.Cycles
import CedarSchema.Proofs.Resolve.Recorded
import CedarSchema.Proofs.Resolve.Run
import CedarSchema.Proofs.Parse.Loops
import CedarSchema.Proofs.Document.Census
import CedarSchema.Proofs.Document.Tags
