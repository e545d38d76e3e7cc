import CedarSchema.Proofs.Document.Format
import CedarSchema.Proofs.Json.Range

/-
  Which texts are read as documents. A text that is JSON is read exactly if its value has the
  published format, but for unknown fields in parents of actions, and its root namespace is bare.
  The text of a value is JSON for the reader exactly if no number in it is too large. So a document
  of the published format can be unreadable for its numbers only, and a document that is read can
  fail the format for the parents of its actions only.
-/

namespace CedarSchema

open Document

namespace Schema

/-- Once a text is known to be JSON, it is read exactly if its value is a document of the published
format, but for unknown fields in parents of actions, with a bare root. -/
theorem exists_ofDocumentText_iff_of_read? {text : String} {j : Json}
    (h : Json.read? text = some j) :
    (∃ s, ofDocumentText text = .ok s) ↔ isLooseDocument j = true ∧ hasBareRoot j = true := by
  have htext : ofDocumentText text = (ofDocument j).mapError .misshapen := by
    rw [ofDocumentText, h]
  rw [htext, ← Bool.and_eq_true, ← isOk_ofDocument (Json.readable_of_read? h)]
  cases ofDocument j with
  | ok s => exact ⟨fun _ => rfl, fun _ => ⟨s, rfl⟩⟩
  | error e => exact ⟨nofun, nofun⟩

theorem read?_isSome_of_ofDocumentText {text : String} {s : Schema}
    (h : ofDocumentText text = .ok s) : ∃ j, Json.read? text = some j := by
  cases hread : Json.read? text with
  | some j => exact ⟨j, rfl⟩
  | none =>
    rw [ofDocumentText, hread] at h
    cases h

/-- A document of the published format that nests no more than 127 deep and whose root namespace is
not annotated is read from its text exactly if no number in it is too large, and it is read from
every other text that is read as the same value. -/
theorem exists_ofDocumentText_iff_readable {j : Json} (h : j.Spelled) (hd : j.depth ≤ 127)
    (hvalid : isValid j = true) (hroot : hasBareRoot j = true) :
    ((∃ s, ofDocumentText j.text = .ok s) ↔ j.Readable) ∧
      ∀ text, Json.read? text = some j → ∃ s, ofDocumentText text = .ok s := by
  rw [isValid_eq, Bool.and_eq_true] at hvalid
  have hall (text : String) (htext : Json.read? text = some j) :
      ∃ s, ofDocumentText text = .ok s :=
    (exists_ofDocumentText_iff_of_read? htext).2 ⟨hvalid.1, hroot⟩
  refine ⟨⟨fun ⟨s, hs⟩ => ?_, fun hj => hall j.text (Json.read?_text hj hd)⟩, hall⟩
  obtain ⟨j', hj'⟩ := read?_isSome_of_ofDocumentText hs
  exact (Json.read?_text_isSome_iff h hd).1 (by rw [hj']; rfl)

/-- A document that declares one common type, with a number beside it. -/
def documentWithNumber (digits : String) : Json :=
  .object [("", .object [
    ("commonTypes", .object [
      ("T", .object [("type", .string "Long"), ("x", .number digits)])])])]

theorem spelled_documentWithNumber {digits : String} (h : Json.IsDecimal digits) :
    (documentWithNumber digits).Spelled := by
  simp [documentWithNumber, Json.Spelled, Json.SpelledMembers, Ascending, h]
  decide

theorem depth_documentWithNumber (digits : String) : (documentWithNumber digits).depth ≤ 127 := by
  simp [documentWithNumber, Json.depth, Json.depthOfMembers]

theorem isNumber_small : Json.IsNumber "1e-9" :=
  @Json.IsNumber.mk '1' ['e', '-', '9'] ⟨['1'], [], -9⟩ rfl (List.all_eq_true.1 rfl) rfl rfl

theorem isDecimal_large : Json.IsDecimal "1e999" :=
  @Json.IsDecimal.mk '1' ['e', '9', '9', '9'] ⟨['1'], [], 999⟩ rfl (List.all_eq_true.1 rfl) rfl

theorem not_isNumber_large : ¬Json.IsNumber "1e999" := by
  intro h
  generalize hdigits : "1e999" = digits at h
  cases h with
  | @mk c cs d hc hcs hd hlimit =>
    have hchars : c :: cs = ['1', 'e', '9', '9', '9'] := by
      rw [← @String.toList_ofList (c :: cs), ← hdigits]
      rfl
    rw [hchars] at hd
    cases hd
    exact absurd hlimit (by decide)

theorem exists_ofDocumentText_documentWithNumber :
    ∃ s, ofDocumentText (documentWithNumber "1e-9").text = .ok s := by
  have hspelled := spelled_documentWithNumber isNumber_small.isDecimal
  have hdepth := depth_documentWithNumber "1e-9"
  have hread := (exists_ofDocumentText_iff_readable hspelled hdepth rfl rfl).1
  refine hread.2 ?_
  simp [documentWithNumber, Json.Readable, Json.ReadableMembers, Ascending, isNumber_small]
  decide

/-- The format leaves the other fields of a type free, but a number that is too large for double
precision makes the text unreadable. -/
theorem not_ofDocumentText_documentWithNumber :
    (documentWithNumber "1e999").Spelled ∧ (documentWithNumber "1e999").depth ≤ 127 ∧
      isValid (documentWithNumber "1e999") = true ∧
      hasBareRoot (documentWithNumber "1e999") = true ∧
      ¬∃ s, ofDocumentText (documentWithNumber "1e999").text = .ok s := by
  have hspelled := spelled_documentWithNumber isDecimal_large
  have hdepth := depth_documentWithNumber "1e999"
  refine ⟨hspelled, hdepth, rfl, rfl, fun ⟨s, hs⟩ => ?_⟩
  obtain ⟨j, hj⟩ := read?_isSome_of_ofDocumentText hs
  have hreadable := (Json.read?_text_isSome_iff hspelled hdepth).1 (by rw [hj]; rfl)
  simp [documentWithNumber, Json.Readable, Json.ReadableMembers, not_isNumber_large] at hreadable

/-- A document that is read has the published format exactly if the parents of its actions have no
unknown fields. -/
theorem isValid_iff_of_ofDocumentText {text : String} {s : Schema}
    (h : ofDocumentText text = .ok s) :
    ∃ j, Json.read? text = some j ∧ (isValid j = true ↔ hasPlainRefs j = true) := by
  obtain ⟨j, hj⟩ := read?_isSome_of_ofDocumentText h
  obtain ⟨hloose, -⟩ := (exists_ofDocumentText_iff_of_read? hj).1 ⟨s, h⟩
  exact ⟨j, hj, by rw [isValid_eq, hloose, Bool.true_and]⟩

/-- A document of one action with one parent. -/
def documentWithParent (parent : List (String × Json)) : Json :=
  .object [("N", .object [
    ("actions", .object [("a", .object [("memberOf", .array [.object parent])])])])]

/-- A parent without a type, and one with a field that is unknown. -/
def plainParent : List (String × Json) := [("id", .string "b")]

def bogusParent : List (String × Json) := [("bogus", .bool true), ("id", .string "b")]

theorem read?_documentWithParent {parent : List (String × Json)} (hascending : Ascending parent)
    (hreadable : Json.ReadableMembers parent) (hdepth : Json.depthOfMembers parent = 0) :
    Json.read? (documentWithParent parent).text = some (documentWithParent parent) := by
  refine Json.read?_text ?_ ?_
  · simp [documentWithParent, Json.Readable, Json.ReadableMembers, Json.ReadableItems, Ascending,
      hreadable]
    exact hascending
  · simp [documentWithParent, Json.depth, Json.depthOfMembers, Json.depthOfItems, hdepth,
      Json.maxDepth]

theorem isValid_documentWithParent_plain :
    ∃ s j, ofDocumentText (documentWithParent plainParent).text = .ok s ∧
      Json.read? (documentWithParent plainParent).text = some j ∧
      (isValid j = true ↔ hasPlainRefs j = true) := by
  have hread : Json.read? (documentWithParent plainParent).text =
      some (documentWithParent plainParent) :=
    read?_documentWithParent (List.pairwise_singleton _ _) ⟨trivial, trivial⟩ rfl
  obtain ⟨s, hs⟩ := (exists_ofDocumentText_iff_of_read? hread).2 ⟨rfl, rfl⟩
  obtain ⟨j, hj, hvalid⟩ := isValid_iff_of_ofDocumentText hs
  exact ⟨s, j, hs, hj, hvalid⟩

/-- The reader passes over the unknown field, the published format does not. -/
theorem not_isValid_documentWithParent_bogus :
    (∃ s, ofDocumentText (documentWithParent bogusParent).text = .ok s) ∧
      Json.read? (documentWithParent bogusParent).text = some (documentWithParent bogusParent) ∧
      isValid (documentWithParent bogusParent) = false := by
  have hread : Json.read? (documentWithParent bogusParent).text =
      some (documentWithParent bogusParent) :=
    read?_documentWithParent (List.pairwise_pair.2 (by decide)) ⟨trivial, trivial, trivial⟩ rfl
  exact ⟨(exists_ofDocumentText_iff_of_read? hread).2 ⟨rfl, rfl⟩, hread, rfl⟩

end Schema

end CedarSchema
