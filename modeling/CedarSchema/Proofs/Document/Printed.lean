import CedarSchema.Proofs.Document.Spelling
import CedarSchema.Proofs.Document.Uncommented
import CedarSchema.Proofs.Parse.Decl
import CedarSchema.Proofs.Resolve.Plain
import Mathlib

/-
  From documents to text. What is read from a document can be written as text if its names can be
  spelled, and the text is read as the schema with plain names. It means what the document means as
  long as no reference to an entity type is lost on the way, as happens where a common type bears
  the same name and a plain name finds that first.
-/

namespace CedarSchema

open SymbolTable

namespace Schema

/-- A document that resolves and whose names can be spelled is written as text that is read again,
with plain names for its references to entity types. The text resolves to the same if every such
reference, taken for a plain name, stands for the entity type that it found, and only if those do
that entity types and actions get their meaning from. -/
theorem parse_format_of_ofDocumentText {text : String} {s : Schema} {r : ResolvedSchema}
    (h : ofDocumentText text = .ok s) (hr : s.resolve = .ok r) (hnames : s.WritableNames) :
    parse s.format = .ok s.plain ∧
      ((∀ d ∈ s.declarations, ∀ type ∈ d.decl.types, s.table.Keeps s.plain.table d.ns type) →
        s.plain.resolve = .ok r) ∧
      (s.plain.resolve = .ok r →
        ∀ ns type, s.Uses ns type → s.table.Keeps s.plain.table ns type) := by
  have hdistinct := ((resolve_eq_ok_iff s r).1 hr).distinct
  have hwritable := writable_of_ofDocumentText h hnames (distinct_table_iff.1 hdistinct).2.1
  have hlines := linesFit_of_ofDocumentText h hwritable
  obtain ⟨t, ht, rfl⟩ := (hwritable.parse_format hlines).exists_ok
  refine ⟨ht, fun hkeeps => resolve_plain hkeeps hr, fun hr' ns type huses => ?_⟩
  exact keeps_of_resolve_plain hr hr' huses

/-- Users that are tagged with users, and a number type beside them. -/
def documentWithTags (name : String) : Json :=
  .object [("", .object [
    ("commonTypes", .object [(name, .object [("type", .string "Long")])]),
    ("entityTypes", .object [
      ("User", .object [
        ("tags", .object [("name", .string "User"), ("type", .string "Entity")])])])])]

def schemaWithTags (name : String) : Schema where
  items := [
    .decl (.commonType { name, type := .path ⟨["__cedar", "Long"]⟩ }),
    .decl (.entity { names := ["User"], tags := some (.entity ⟨["User"]⟩) })]

/-- Users with tags of the given type. -/
def usersTagged (tags : ResolvedType) : ResolvedSchema where
  entities := .ofList [("User", ⟨"User", .empty, [], none, some tags⟩)]
  enums := .empty
  actions := .empty

theorem ofDocumentText_documentWithTags (name : String) :
    ofDocumentText (documentWithTags name).text = .ok (schemaWithTags name) := by
  have hread : Json.read? (documentWithTags name).text = some (documentWithTags name) := by
    refine Json.read?_text ?_ ?_
    · simp [documentWithTags, Json.Readable, Json.ReadableMembers, Ascending]
      decide
    · simp [documentWithTags, Json.depth, Json.depthOfMembers, Json.maxDepth]
  rw [ofDocumentText, hread]
  rfl

theorem writableNames_schemaWithTags {name : String} (h : Text.isIdent name = true) :
    (schemaWithTags name).WritableNames := by
  have hlong : Path.Writable ⟨["__cedar", "Long"]⟩ := ⟨by simp, by decide⟩
  have huser : Path.Writable ⟨["User"]⟩ := ⟨by simp, by decide⟩
  have hident : Text.isIdent "User" = true := by decide
  refine ⟨by simp [schemaWithTags], by simp [schemaWithTags], ?_⟩
  refine List.forall_mem_cons.2 ⟨?_, List.forall_mem_singleton.2 ?_⟩
  · refine ⟨List.forall_mem_singleton.2 h, nofun, nofun, ?_, nofun⟩
    exact List.forall_mem_singleton.2 hlong
  · refine ⟨List.forall_mem_singleton.2 hident, nofun, nofun, ?_, nofun⟩
    exact List.forall_mem_singleton.2 huser

theorem parse_format_documentWithTags_id :
    ofDocumentText (documentWithTags "Id").text = .ok (schemaWithTags "Id") ∧
      (schemaWithTags "Id").resolve = .ok (usersTagged (.entity "User")) ∧
      (schemaWithTags "Id").WritableNames ∧
      parse (schemaWithTags "Id").format = .ok (schemaWithTags "Id").plain ∧
      (schemaWithTags "Id").plain.resolve = .ok (usersTagged (.entity "User")) := by
  have hread := ofDocumentText_documentWithTags "Id"
  have hresolve : (schemaWithTags "Id").resolve = .ok (usersTagged (.entity "User")) := by cbv
  have hnames : (schemaWithTags "Id").WritableNames := writableNames_schemaWithTags (by decide)
  obtain ⟨hparse, hmeans, -⟩ := parse_format_of_ofDocumentText hread hresolve hnames
  refine ⟨hread, hresolve, hnames, hparse, hmeans (List.forall_mem_cons.2 ⟨?_, ?_⟩)⟩
  · exact List.forall_mem_singleton.2 trivial
  · refine List.forall_mem_singleton.2 (List.forall_mem_singleton.2 fun name hname => ?_)
    have huser : (schemaWithTags "Id").table.lookupEntityType "" ⟨["User"]⟩ = .ok "User" := by cbv
    cases huser.symm.trans hname
    exact .entityType (by cbv)

/-- With a number type of the name User the text says that users are tagged with numbers. -/
theorem parse_format_documentWithTags_user :
    ofDocumentText (documentWithTags "User").text = .ok (schemaWithTags "User") ∧
      (schemaWithTags "User").resolve = .ok (usersTagged (.entity "User")) ∧
      (schemaWithTags "User").WritableNames ∧
      parse (schemaWithTags "User").format = .ok (schemaWithTags "User").plain ∧
      (schemaWithTags "User").plain.resolve = .ok (usersTagged .long) ∧
      usersTagged .long ≠ usersTagged (.entity "User") := by
  have hread := ofDocumentText_documentWithTags "User"
  have hnames : (schemaWithTags "User").WritableNames := writableNames_schemaWithTags (by decide)
  refine ⟨hread, by cbv, hnames, by cbv, by cbv, fun heq => ?_⟩
  have hfind := congrArg (fun r => r.entity? "User") heq
  simp [usersTagged, ResolvedSchema.entity?] at hfind

end Schema

end CedarSchema
