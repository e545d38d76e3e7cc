import CedarSchema.Proofs.Document.Reference
import CedarSchema.Proofs.Document.Uncommented
import CedarSchema.Proofs.Parse.Decl
import CedarSchema.Proofs.Resolve.Plain
import Mathlib

/-
  What the text of a document declares. The reader takes any names for types and namespaces, and the
  printer writes them as they are; only the names of actions and attributes are quoted where they
  have to be. So the text declares what the document declares only if the names of its namespaces
  and types can be spelled. That is enough if the keys of annotations can be spelled as well, for
  references are spelled like what they find (`Schema.sameDeclarations_of_ofDocumentText`).
-/

namespace CedarSchema

open Text SymbolTable

/-! ## Declared names -/

/-- What a name is declared as. -/
inductive NameKind
  | entityType | enum | action | commonType
  deriving DecidableEq, Repr

namespace Decl

def kind : Decl → NameKind
  | entity _ => .entityType
  | enum _ => .enum
  | action _ => .action
  | commonType _ => .commonType

theorem kind_plain (d : Decl) : d.plain.kind = d.kind := by
  cases d <;> rfl

/-- All names but those of actions are names of types. -/
theorem mem_typeNames {d : Decl} {n : String} :
    n ∈ d.typeNames ↔ d.kind ≠ .action ∧ n ∈ d.names := by
  cases d <;> simp [typeNames, kind, names]

theorem Writable.isIdent_of_typeName {d : Decl} (h : d.Writable) {n : String}
    (hn : n ∈ d.typeNames) : isIdent n = true := by
  have hbody := h.body
  cases d with
  | entity d => exact EntityDecl.Writable.idents hbody n hn
  | enum d => exact EnumDecl.Writable.idents hbody n hn
  | action d => cases hn
  | commonType d => exact List.mem_singleton.1 hn ▸ CommonTypeDecl.Writable.ident hbody

end Decl

namespace Schema

variable {s t : Schema}

/-- All that is declared: a namespace, a kind and a name. -/
def declared (s : Schema) : List (String × NameKind × String) :=
  s.declarations.flatMap fun d => d.decl.names.map fun n => (d.ns, d.decl.kind, n)

/-- The schemas have the same namespaces and declare the same names in each, as the same. -/
structure SameDeclarations (s t : Schema) : Prop where
  namespaces : ∀ ns, ns ∈ s.namespaces.keys ↔ ns ∈ t.namespaces.keys
  declared : ∀ x, x ∈ s.declared ↔ x ∈ t.declared

theorem mem_declared {ns : String} {kind : NameKind} {n : String} :
    (ns, kind, n) ∈ s.declared ↔ ∃ d ∈ s.declarations, d.ns = ns ∧ d.decl.kind = kind ∧
      n ∈ d.decl.names := by
  unfold declared
  rw [List.mem_flatMap]
  constructor
  · rintro ⟨d, hd, hx⟩
    obtain ⟨n, hn, ⟨⟩⟩ := List.mem_map.1 hx
    exact ⟨d, hd, rfl, rfl, hn⟩
  · rintro ⟨d, hd, rfl, rfl, hn⟩
    exact ⟨d, hd, List.mem_map_of_mem hn⟩

theorem declared_plain (s : Schema) : s.plain.declared = s.declared :=
  flatMap_declarations_plain (fun _ d => by rw [d.names_plain, d.kind_plain]) s

theorem sameDeclarations_plain (s : Schema) : s.SameDeclarations s.plain := by
  constructor
  · intro ns
    have hname (i : Item) : i.plain.namespaceName = i.namespaceName := by cases i <;> rfl
    simp [mem_keys_namespaces, plain, hname]
  · intro x
    rw [s.declared_plain]

/-! ## Text -/

/-- Text declares nothing that it cannot spell. -/
theorem Written.declaresWritable (h : t.Written) : t.DeclaresWritable := by
  constructor
  · intro ns hns hroot
    obtain ⟨e, he, rfl⟩ := List.mem_map.1 hns
    exact h.1.path_ofText he hroot
  · intro d hd n hn
    exact (h.of_mem_declarations hd).1.isIdent_of_typeName hn

theorem SameDeclarations.declaresWritable (h : s.SameDeclarations t) (ht : t.DeclaresWritable) :
    s.DeclaresWritable := by
  constructor
  · intro ns hns
    exact ht.namespaces ns ((h.namespaces ns).1 hns)
  · intro d hd n hn
    obtain ⟨hkind, hn⟩ := Decl.mem_typeNames.1 hn
    have hdeclared := (h.declared (d.ns, d.decl.kind, n)).1 (mem_declared.2 ⟨d, hd, rfl, rfl, hn⟩)
    obtain ⟨d', hd', -, hkind', hn'⟩ := mem_declared.1 hdeclared
    exact ht.types d' hd' n (Decl.mem_typeNames.2 ⟨hkind' ▸ hkind, hn'⟩)

/-- A document that resolves is written as text that declares the same only if text can spell the
names of its namespaces and types. If it can, and the keys of annotations are identifiers, then the
text does declare the same. -/
theorem sameDeclarations_of_ofDocumentText {text : String} {r : ResolvedSchema}
    (h : ofDocumentText text = .ok s) (hr : s.resolve = .ok r) :
    ((∃ t, parse s.format = .ok t ∧ s.SameDeclarations t) → s.DeclaresWritable) ∧
      (s.DeclaresWritable → (∀ key ∈ s.annotationKeys, isIdent key = true) →
        ∃ t, parse s.format = .ok t ∧ s.SameDeclarations t) := by
  constructor
  · rintro ⟨t, ht, hsame⟩
    exact hsame.declaresWritable ((written_of_parse _).of_ok ht).declaresWritable
  · intro hdeclared hkeys
    have hread := read_of_ofDocumentText Document.givenByReading_tidy h
    have hnames : ∀ d ∈ s.declarations, d.decl.names ≠ [] :=
      fun d hd => ((tidy_of_ofDocumentText h).of_mem_declarations hd).names_ne_nil
    obtain ⟨hbound, hclosed, -⟩ := (exists_resolve_iff s).1 ⟨r, hr⟩
    have hwell := (bound_iff hnames).1 hbound
    have hparents := (declaresParents_iff hnames).2 hclosed
    have hwritable : s.WritableNames :=
      writableNames_of_declared hread hwell hparents hdeclared hkeys
    have hexpressible := writable_of_ofDocumentText h hwritable hwell.notReserved
    have hlines := linesFit_of_ofDocumentText h hexpressible
    obtain ⟨t, ht, rfl⟩ := (hexpressible.parse_format hlines).exists_ok
    exact ⟨_, ht, s.sameDeclarations_plain⟩

/-! ## A document with one name -/

/-- A document with one name, of an action and of an entity type that is its own parent. -/
def documentWithName (name : String) : Json :=
  .object [("", .object [
    ("actions", .object [(name, .object [])]),
    ("entityTypes", .object [
      (name, .object [("memberOfTypes", .array [.string name])])])])]

def schemaWithName (name : String) : Schema where
  items := [
    .decl (.entity { names := [name], parents := [Path.ofText name] }),
    .decl (.action { names := [name] })]

theorem ofDocumentText_documentWithName (name : String) :
    ofDocumentText (documentWithName name).text = .ok (schemaWithName name) := by
  have hread : Json.read? (documentWithName name).text = some (documentWithName name) := by
    refine Json.read?_text ?_ ?_
    · simp [documentWithName, Json.Readable, Json.ReadableMembers, Json.ReadableItems, Ascending]
      decide
    · simp [documentWithName, Json.depth, Json.depthOfMembers, Json.depthOfItems, Json.maxDepth]
  rw [ofDocumentText, hread]
  rfl

/-- The document resolves whatever the name is. -/
theorem exists_resolve_schemaWithName (name : String) :
    ∃ r, (schemaWithName name).resolve = .ok r := by
  let s := schemaWithName name
  have hdecls : s.declarations =
      [⟨"", .entity { names := [name], parents := [Path.ofText name] }⟩,
        ⟨"", .action { names := [name] }⟩] := rfl
  have hparent : s.table.lookupEntityType "" (Path.ofText name) = .ok name :=
    lookupEntityType_ofText (hasEntityType_iff.2 (List.mem_singleton.2 rfl))
  have hrefers (a b : String) : ¬s.table.Refers a b := by
    rintro ⟨d, hd, -⟩
    cases hd
  have hbound : s.WellBound := {
    entityTypes := List.nodup_singleton _
    commonTypes := List.nodup_nil
    actions := List.nodup_singleton _
    notReserved := by simp [hdecls]
    types := by simp [hdecls, Decl.types]
    acyclic := acyclic_of_forall_not hrefers
    entityRefs := by
      rw [hdecls]
      exact List.forall_mem_cons.2 ⟨List.forall_mem_singleton.2 ⟨name, hparent⟩,
        List.forall_mem_singleton.2 (List.forall_mem_nil _)⟩
    contexts := by simp [hdecls, Decl.contexts] }
  have hnames : ∀ d ∈ s.declarations, d.decl.names ≠ [] := by simp [hdecls, Decl.names]
  have hmember (a b : EntityUid) : ¬s.IsMember a b := by
    simp [IsMember, hdecls, Scoped.parentUids]
  exact (exists_resolve_iff s).2 ⟨(bound_iff hnames).2 hbound,
    fun a b h => (hmember a b h).elim, acyclic_of_forall_not hmember⟩

theorem sameDeclarations_documentWithName_ident :
    ofDocumentText (documentWithName "A").text = .ok (schemaWithName "A") ∧
      (∃ r, (schemaWithName "A").resolve = .ok r) ∧
      (∀ key ∈ (schemaWithName "A").annotationKeys, isIdent key = true) ∧
      (schemaWithName "A").DeclaresWritable ∧
      ∃ t, parse (schemaWithName "A").format = .ok t ∧ (schemaWithName "A").SameDeclarations t := by
  have hread := ofDocumentText_documentWithName "A"
  obtain ⟨r, hr⟩ := exists_resolve_schemaWithName "A"
  have hkeys : ∀ key ∈ (schemaWithName "A").annotationKeys, isIdent key = true := nofun
  have hdeclared : (schemaWithName "A").DeclaresWritable := by
    constructor
    · intro ns hns hroot
      exact (hroot (List.mem_singleton.1 hns)).elim
    · decide
  exact ⟨hread, ⟨r, hr⟩, hkeys, hdeclared,
    (sameDeclarations_of_ofDocumentText hread hr).2 hdeclared hkeys⟩

/-- Text with a blank in the name of an entity type is not read. The action is quoted. -/
theorem not_sameDeclarations_documentWithName_blank :
    ofDocumentText (documentWithName "a b").text = .ok (schemaWithName "a b") ∧
      (∃ r, (schemaWithName "a b").resolve = .ok r) ∧
      ¬∃ t, parse (schemaWithName "a b").format = .ok t ∧
        (schemaWithName "a b").SameDeclarations t := by
  have hread := ofDocumentText_documentWithName "a b"
  refine ⟨hread, exists_resolve_schemaWithName "a b", ?_⟩
  rintro ⟨t, ht, -⟩
  have herror : (parse (schemaWithName "a b").format).isOk = false := by cbv
  rw [ht] at herror
  cases herror

end Schema

end CedarSchema
