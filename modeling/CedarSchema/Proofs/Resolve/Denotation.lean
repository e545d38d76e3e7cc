import CedarSchema.Proofs.Dict
import CedarSchema.Proofs.Resolve.Chain
import CedarSchema.Proofs.Resolve.Lookup

/-
  What a type expression stands for, said without chains, without kept expansions and without any
  order: a name bound to a common type stands for what the body of the common type stands for in
  the namespace that declares it. Not every expression stands for a type. Names may have no binding,
  records may repeat an attribute (`Binds`), and a common type may lead back to itself (`Refers`);
  an expression that stands for a type has none of these faults anywhere below it.
-/

namespace CedarSchema

namespace SymbolTable

variable {t : SymbolTable} {ns : String}

/-! ## Well-bound types -/

mutual

/-- Every name in the type has a binding in the namespace `ns`, and no record in it repeats the
name of an attribute. -/
def Binds (t : SymbolTable) (ns : String) : TypeExpr → Prop
  | .path p => ∃ b, t.lookupType ns p = .ok b
  | .entity p => ∃ name, t.lookupEntityType ns p = .ok name
  | .set element => t.Binds ns element
  | .record r => t.BindsRecord ns r
termination_by structural type => type

def BindsRecord (t : SymbolTable) (ns : String) : Record TypeExpr → Prop
  | ⟨attributes, _⟩ => t.BindsAll ns attributes ∧ (attributes.map Attribute.name).Nodup
termination_by structural r => r

def BindsAll (t : SymbolTable) (ns : String) : List (Attribute TypeExpr) → Prop
  | [] => True
  | ⟨_, type, _, _, _⟩ :: rest => t.Binds ns type ∧ t.BindsAll ns rest
termination_by structural attributes => attributes

end

mutual

/-- Some name in the type is bound to the common type `name` in the namespace `ns`. -/
def Mentions (t : SymbolTable) (ns name : String) : TypeExpr → Prop
  | .path p => t.lookupType ns p = .ok (.commonType name)
  | .entity _ => False
  | .set element => t.Mentions ns name element
  | .record r => t.MentionsIn ns name r
termination_by structural type => type

def MentionsIn (t : SymbolTable) (ns name : String) : Record TypeExpr → Prop
  | ⟨attributes, _⟩ => t.MentionsAny ns name attributes
termination_by structural r => r

def MentionsAny (t : SymbolTable) (ns name : String) : List (Attribute TypeExpr) → Prop
  | [] => False
  | ⟨_, type, _, _, _⟩ :: rest => t.Mentions ns name type ∨ t.MentionsAny ns name rest
termination_by structural attributes => attributes

end

/-- The body of the common type `a` mentions the common type `b`. -/
def Refers (t : SymbolTable) (a b : String) : Prop :=
  ∃ d, t.commonType? a = some d ∧ t.Mentions d.ns b d.decl.type

/-- Whatever common types stand for, the type is a record. -/
inductive IsRecord (t : SymbolTable) : String → TypeExpr → Prop
  | record (ns : String) (r : Record TypeExpr) : IsRecord t ns (.record r)
  | commonType {ns name : String} {p : Path} {d : Scoped CommonTypeDecl}
      (hp : t.lookupType ns p = .ok (.commonType name)) (hd : t.commonType? name = some d)
      (h : IsRecord t d.ns d.decl.type) : IsRecord t ns (.path p)

/-! ## Denotation -/

mutual

/-- The type that a type expression stands for in the namespace `ns`. -/
inductive Denotes (t : SymbolTable) : String → TypeExpr → ResolvedType → Prop
  | builtin {ns : String} {p : Path} {type : ResolvedType}
      (hp : t.lookupType ns p = .ok (.builtin type)) : Denotes t ns (.path p) type
  | entityType {ns name : String} {p : Path}
      (hp : t.lookupType ns p = .ok (.entityType name)) : Denotes t ns (.path p) (.entity name)
  | commonType {ns name : String} {p : Path} {d : Scoped CommonTypeDecl} {type : ResolvedType}
      (hp : t.lookupType ns p = .ok (.commonType name)) (hd : t.commonType? name = some d)
      (h : Denotes t d.ns d.decl.type type) : Denotes t ns (.path p) type
  | entity {ns name : String} {p : Path}
      (hp : t.lookupEntityType ns p = .ok name) : Denotes t ns (.entity p) (.entity name)
  | set {ns : String} {element : TypeExpr} {type : ResolvedType}
      (h : Denotes t ns element type) : Denotes t ns (.set element) (.set type)
  | record {ns : String} {r : Record TypeExpr} {fields : Fields}
      (h : DenotesRecord t ns r fields) : Denotes t ns (.record r) (.record fields)

/-- The fields that a record stands for. -/
inductive DenotesRecord (t : SymbolTable) : String → Record TypeExpr → Fields → Prop
  | mk {ns : String} {attributes : List (Attribute TypeExpr)} {comments : Comments}
      {fields : Fields} (h : DenotesAll t ns attributes fields)
      (hnodup : (attributes.map Attribute.name).Nodup) :
      DenotesRecord t ns ⟨attributes, comments⟩ (Dict.ofList fields).entries

/-- The fields that attributes stand for, each by itself and in the order they are written. -/
inductive DenotesAll (t : SymbolTable) : String → List (Attribute TypeExpr) → Fields → Prop
  | nil (ns : String) : DenotesAll t ns [] []
  | cons {ns name : String} {type : TypeExpr} {required : Bool} {annotations : List Annotation}
      {comments : Comments} {rest : List (Attribute TypeExpr)} {type' : ResolvedType}
      {fields : Fields} (h : Denotes t ns type type') (hrest : DenotesAll t ns rest fields) :
      DenotesAll t ns (⟨name, type, required, annotations, comments⟩ :: rest)
        ((name, ⟨type', required, annotationDict annotations⟩) :: fields)

end

theorem DenotesAll.map_fst {ns : String} : {attributes : List (Attribute TypeExpr)} →
    {fields : Fields} → t.DenotesAll ns attributes fields →
      fields.map Prod.fst = attributes.map Attribute.name
  | _, _, .nil _ => rfl
  | _, _, .cons h hrest => by
    rw [List.map_cons, List.map_cons, hrest.map_fst]

mutual

theorem Denotes.binds {ns : String} : {type : TypeExpr} → {type' : ResolvedType} →
    t.Denotes ns type type' → t.Binds ns type
  | _, _, .builtin hp => ⟨_, hp⟩
  | _, _, .entityType hp => ⟨_, hp⟩
  | _, _, .commonType hp _ _ => ⟨_, hp⟩
  | _, _, .entity hp => ⟨_, hp⟩
  | _, _, .set h => h.binds
  | _, _, .record h => h.binds

theorem DenotesRecord.binds {ns : String} : {r : Record TypeExpr} → {fields : Fields} →
    t.DenotesRecord ns r fields → t.BindsRecord ns r
  | _, _, .mk h hnodup => ⟨h.binds, hnodup⟩

theorem DenotesAll.binds {ns : String} : {attributes : List (Attribute TypeExpr)} →
    {fields : Fields} → t.DenotesAll ns attributes fields → t.BindsAll ns attributes
  | _, _, .nil _ => trivial
  | _, _, .cons h hrest => ⟨h.binds, hrest.binds⟩

end

mutual

/-- Below a type that stands for something no path of references goes on forever. -/
theorem Denotes.acc {ns name : String} : {type : TypeExpr} → {type' : ResolvedType} →
    t.Denotes ns type type' → t.Mentions ns name type → Acc (fun a b => t.Refers b a) name
  | _, _, .builtin hp, hm => by
    have : _ = _ := hp.symm.trans hm
    cases this
  | _, _, .entityType hp, hm => by
    have : _ = _ := hp.symm.trans hm
    cases this
  | _, _, .commonType hp hd h, hm => by
    have : _ = _ := hp.symm.trans hm
    cases this
    -- What the common type refers to is mentioned in its body, which stands for something as well.
    refine ⟨_, fun b ⟨d', hd', hb⟩ => ?_⟩
    cases hd.symm.trans hd'
    exact h.acc hb
  | _, _, .set h, hm => h.acc hm
  | _, _, .record h, hm => h.acc hm

theorem DenotesRecord.acc {ns name : String} : {r : Record TypeExpr} → {fields : Fields} →
    t.DenotesRecord ns r fields → t.MentionsIn ns name r → Acc (fun a b => t.Refers b a) name
  | _, _, .mk h _, hm => h.acc hm

theorem DenotesAll.acc {ns name : String} : {attributes : List (Attribute TypeExpr)} →
    {fields : Fields} → t.DenotesAll ns attributes fields → t.MentionsAny ns name attributes →
      Acc (fun a b => t.Refers b a) name
  | _, _, .nil _, hm => hm.elim
  | _, _, .cons h hrest, hm => hm.elim h.acc hrest.acc

end

/-- Common types that all stand for something do not lead back to themselves. -/
theorem acyclic_of_denotes
    (h : ∀ name d, t.commonType? name = some d → ∃ type, t.Denotes d.ns d.decl.type type) :
    Acyclic t.Refers := by
  intro name hcycle
  obtain ⟨next, ⟨d, hd, hnext⟩, -⟩ := Relation.TransGen.head'_iff.1 hcycle
  obtain ⟨type, htype⟩ := h name d hd
  refine not_transGen_of_acc ⟨name, fun next ⟨d', hd', hnext⟩ => ?_⟩ hcycle
  cases hd.symm.trans hd'
  exact htype.acc hnext

/-- A type that stands for something stands for a record exactly if it is one once the common types
are expanded. -/
theorem Denotes.isRecord_iff {ns : String} : {type : TypeExpr} → {type' : ResolvedType} →
    t.Denotes ns type type' → (t.IsRecord ns type ↔ ∃ fields, type' = .record fields)
  | .path p, _, .builtin hp => by
    constructor
    · intro hr
      cases hr with
      | commonType hp' hd' hr => cases hp.symm.trans hp'
    · rintro ⟨fields, rfl⟩
      obtain ⟨name, hname⟩ := (ends_lookupType t ns p).of_ok hp
      exact absurd hname (builtinType_ne_record name fields)
  | .path p, _, .entityType hp => by
    constructor
    · intro hr
      cases hr with
      | commonType hp' hd' hr => cases hp.symm.trans hp'
    · rintro ⟨fields, ⟨⟩⟩
  | .path p, _, .commonType hp hd h => by
    rw [← h.isRecord_iff]
    constructor
    · intro hr
      cases hr with
      | commonType hp' hd' hr =>
        cases hp.symm.trans hp'
        cases hd.symm.trans hd'
        exact hr
    · exact .commonType hp hd
  | .entity p, _, .entity hp => ⟨nofun, nofun⟩
  | .set element, _, .set h => ⟨nofun, nofun⟩
  | .record r, _, .record h => ⟨fun _ => ⟨_, rfl⟩, fun _ => .record _ r⟩

end SymbolTable

end CedarSchema
