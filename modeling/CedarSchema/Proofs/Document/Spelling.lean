import CedarSchema.Proofs.Document.Reading
import CedarSchema.Proofs.Resolve.Criterion
import CedarSchema.Proofs.Schema.Writable

/-
  Documents whose names text can spell. A document may bear any names, text cannot: names that stand
  bare have to be identifiers, or paths of identifiers. Nothing else keeps text from expressing what
  is read from a document, apart from common types of reserved names
  (`Schema.writable_of_ofDocumentText`).
-/

namespace CedarSchema

open Text

/-! ## Names -/

mutual

/-- Every name in the type can be spelled, of types as well as of annotations. -/
def TypeExpr.WritableNames : TypeExpr → Prop
  | .path p => p.Writable
  | .entity p => p.Writable
  | .set element => element.WritableNames
  | .record r => Record.WritableNames r
termination_by structural type => type

def Record.WritableNames : Record TypeExpr → Prop
  | ⟨attributes, _⟩ => AllWritableNames attributes
termination_by structural r => r

def AllWritableNames : List (Attribute TypeExpr) → Prop
  | [] => True
  | ⟨_, type, _, annotations, _⟩ :: rest =>
    (type.WritableNames ∧ ∀ a ∈ annotations, isIdent a.key = true) ∧ AllWritableNames rest
termination_by structural attributes => attributes

end

namespace Decl

/-- The names of types that a declaration declares. Actions may have any names. -/
def typeNames : Decl → List String
  | entity d => d.names
  | enum d => d.names
  | action _ => []
  | commonType d => [d.name]

/-- The parents of actions. -/
def actionRefs : Decl → List ActionRef
  | action d => d.parents
  | _ => []

/-- Every name in the declaration can be spelled. -/
structure WritableNames (d : Decl) : Prop where
  declared : ∀ n ∈ d.typeNames, isIdent n = true
  entityRefs : ∀ p ∈ d.entityRefs, p.Writable
  actionRefs : ∀ r ∈ d.actionRefs, r.Writable
  types : ∀ type ∈ d.types, type.WritableNames
  annotations : ∀ a ∈ d.annotations, isIdent a.key = true

end Decl

/-- Every name in the schema can be spelled. Names of actions and attributes, ids and values are
quoted where they have to be. -/
structure Schema.WritableNames (s : Schema) : Prop where
  paths : ∀ b, .block b ∈ s.items → b.path.Writable
  annotations : ∀ b, .block b ∈ s.items → ∀ a ∈ b.annotations, isIdent a.key = true
  decls : ∀ d ∈ s.declarations, d.decl.WritableNames

/-! ## Documents -/

theorem Comments.atNode_empty : ({} : Comments).AtNode := ⟨⟨nofun, nofun, nofun⟩, rfl⟩

theorem Comments.inBraces_empty : ({} : Comments).InBraces := ⟨⟨nofun, nofun, nofun⟩, rfl, rfl⟩

namespace Document

/-- Text can express the type if its names can be spelled. -/
def Spellable (type : TypeExpr) : Prop := type.WritableNames → type.Writable

theorem writableAttributes_of_spellable : {attributes : List (Attribute TypeExpr)} →
    (∀ a ∈ attributes, ReadAttribute Spellable a) → AllWritableNames attributes →
      WritableAttributes attributes
  | [], _, _ => trivial
  | ⟨_, _, _, annotations, _⟩ :: _, h, ⟨⟨htype, hidents⟩, hrest⟩ => by
    obtain ⟨ha, has⟩ := List.forall_mem_cons.1 h
    cases ha.comments
    have hannotations : WritableAnnotations annotations := ⟨hidents, ha.annotations⟩
    exact ⟨⟨ha.type htype, hannotations, Comments.atNode_empty⟩,
      writableAttributes_of_spellable has hrest⟩

theorem givenByReading_spellable : GivenByReading Spellable where
  path _ _ := id
  entity _ _ := id
  set _ h := h
  record _ has hnodup hnames :=
    ⟨writableAttributes_of_spellable has hnames, hnodup, Comments.inBraces_empty⟩

/-- A declaration that is read can be written if its names can be spelled and it does not declare a
common type of a reserved name. -/
theorem ReadDecl.writable {d : Decl} (h : ReadDecl Spellable d) (hnames : d.WritableNames)
    (hreserved : ∀ c, d = .commonType c → isReservedTypeName c.name = false) : d.Writable := by
  obtain ⟨hdeclared, hentityRefs, hactionRefs, htypes, hannotations⟩ := hnames
  cases h with
  | commonType htype hkeys =>
    refine ⟨⟨?_, hreserved _ rfl, ?_⟩, ⟨hannotations, hkeys⟩, Comments.atNode_empty⟩
    · exact hdeclared _ (List.mem_singleton.2 rfl)
    · exact htype (htypes _ (List.mem_singleton.2 rfl))
  | entity hparents hshape htags hkeys =>
    obtain ⟨hshapes, htagTypes⟩ := List.forall_mem_append.1 htypes
    refine ⟨⟨List.cons_ne_nil _ _, hdeclared, hentityRefs, fun r hr => ?_, fun t ht => ?_⟩,
      ⟨hannotations, hkeys⟩, Comments.atNode_empty⟩
    · exact hshape r hr (hshapes _ (Option.mem_toList.2 (Option.mem_map_of_mem _ hr)))
    · exact htags t ht (htagTypes t (Option.mem_toList.2 ht))
  | enum hvalues hkeys =>
    exact ⟨⟨List.cons_ne_nil _ _, hdeclared, hvalues⟩, ⟨hannotations, hkeys⟩,
      Comments.atNode_empty⟩
  | action hparents happliesTo hkeys =>
    refine ⟨⟨List.cons_ne_nil _ _, hactionRefs, fun a ha => ?_⟩, ⟨hannotations, hkeys⟩,
      Comments.atNode_empty⟩
    cases ha
    obtain ⟨hprincipals, hresources⟩ := List.forall_mem_append.1 hentityRefs
    have hread := happliesTo a rfl
    refine ⟨fun ps hps => ?_, fun rs hrs => ?_, fun t ht => ?_, ?_⟩
    · exact fun p hp => hprincipals p (by rw [hps]; exact hp)
    · exact fun p hp => hresources p (by rw [hrs]; exact hp)
    · exact hread.context t ht (htypes t (Option.mem_toList.2 ht))
    · rw [hread.comments]
      exact Comments.inBraces_empty

end Document

namespace Schema

/-- A schema that is read from a document can be written if its names can be spelled and none of its
common types bears a reserved name. -/
theorem writable_of_ofDocumentText {text : String} {s : Schema} (h : ofDocumentText text = .ok s)
    (hnames : s.WritableNames)
    (hreserved : ∀ ns c, ⟨ns, .commonType c⟩ ∈ s.declarations → isReservedTypeName c.name = false) :
    s.Writable := by
  have hread := read_of_ofDocumentText Document.givenByReading_spellable h
  have hdecl (i : Item) (hi : i ∈ s.items) (d : Decl) (hd : d ∈ i.decls)
      (hread : Document.ReadDecl Document.Spellable d) : d.Writable := by
    have hmem : ⟨i.namespaceName, d⟩ ∈ s.declarations :=
      List.mem_flatMap.2 ⟨i, hi, List.mem_map_of_mem hd⟩
    refine hread.writable (hnames.decls _ hmem) ?_
    rintro c rfl
    exact hreserved _ c hmem
  refine ⟨fun i hi => ?_, by simp [hread.remaining]⟩
  have hitem := hread.items i hi
  cases hitem with
  | @block name decls annotations hname hdecls hkeys =>
    exact ⟨hnames.paths _ hi, fun d hd => hdecl _ hi d hd (hdecls d hd),
      ⟨hnames.annotations _ hi, hkeys⟩, Comments.atNode_empty.toWritable⟩
  | @decl d hd => exact hdecl _ hi d (List.mem_singleton.2 rfl) hd

end Schema

end CedarSchema
