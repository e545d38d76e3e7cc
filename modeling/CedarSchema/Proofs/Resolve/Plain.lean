import CedarSchema.Proofs.Resolve.Retelling
import CedarSchema.Proofs.Schema.Writable

/-
  References to entity types as plain names. Text has no spelling for a reference that finds entity
  types only, so it is written as a plain name (`Schema.plain`). A plain name finds common types as
  well, and those may come first; the reference is kept if the plain name stands for the entity type
  that it found (`Keeps`). If all references are kept, the plain schema retells the schema and so
  resolves to the same (`resolve_plain`). If it resolves to the same, all references are kept that
  entity types and actions get their meaning from (`keeps_of_resolve_plain`): a type that is used
  stands for the same in both schemas, and then so does every common type it mentions.
-/

namespace CedarSchema

open SymbolTable

namespace SymbolTable

variable {t t' : SymbolTable} {ns : String}

/-! ## Kept references -/

mutual

/-- By the table `t'` every reference to an entity type, taken for a plain name, stands for what it
finds by `t`. -/
def Keeps (t t' : SymbolTable) (ns : String) : TypeExpr → Prop
  | .path _ => True
  | .entity p => ∀ name, t.lookupEntityType ns p = .ok name → t'.Denotes ns (.path p) (.entity name)
  | .set element => t.Keeps t' ns element
  | .record r => t.KeepsRecord t' ns r
termination_by structural type => type

def KeepsRecord (t t' : SymbolTable) (ns : String) : Record TypeExpr → Prop
  | ⟨attributes, _⟩ => t.KeepsAll t' ns attributes
termination_by structural r => r

def KeepsAll (t t' : SymbolTable) (ns : String) : List (Attribute TypeExpr) → Prop
  | [] => True
  | ⟨_, type, _, _, _⟩ :: rest => t.Keeps t' ns type ∧ t.KeepsAll t' ns rest
termination_by structural attributes => attributes

end

mutual

/-- Where names find the same and references are kept, the plain type says what the type said. -/
theorem SameNames.retellsPlain (h : t.SameNames t') : (type : TypeExpr) → t.Keeps t' ns type →
    t.Retells t' ns type type.plain
  | .path p, _ => .path fun _ hb => (h.lookupType_eq ns p).trans hb
  | .entity _, hkeeps => .plain hkeeps
  | .set element, hkeeps => .set (h.retellsPlain element hkeeps)
  | .record r, hkeeps => .record (h.retellsPlainRecord r hkeeps)
termination_by structural type => type

theorem SameNames.retellsPlainRecord (h : t.SameNames t') : (r : Record TypeExpr) →
    t.KeepsRecord t' ns r → t.RetellsRecord t' ns r (Record.plain r)
  | ⟨attributes, _⟩, hkeeps => .mk (h.retellsPlainAll attributes hkeeps)
termination_by structural r => r

theorem SameNames.retellsPlainAll (h : t.SameNames t') : (attributes : List (Attribute TypeExpr)) →
    t.KeepsAll t' ns attributes → t.RetellsAll t' ns attributes (plainAttributes attributes)
  | [], _ => .nil
  | ⟨_, type, _, _, _⟩ :: rest, ⟨htype, hrest⟩ =>
    .cons (h.retellsPlain type htype) (h.retellsPlainAll rest hrest)
termination_by structural attributes => attributes

end

/-! ## Declarations -/

/-- Where names find the same and references are kept, the plain declaration says what the
declaration said. -/
theorem SameNames.retellsDeclPlain (h : t.SameNames t') {d : Decl}
    (hkeeps : ∀ type ∈ d.types, t.Keeps t' ns type) : t.RetellsDecl t' ns d d.plain := by
  cases d with
  | entity d =>
    obtain ⟨hshape, htags⟩ := List.forall_mem_append.1 hkeeps
    refine .entity ⟨rfl, h.retellsRefs _, rel_map fun r hr => ?_, rel_map fun type htype => ?_⟩
    · have hmem : .record r ∈ d.shape.map TypeExpr.record := Option.mem_map_of_mem _ hr
      exact h.retellsPlainRecord r (hshape (.record r) (Option.mem_toList.2 hmem))
    · exact h.retellsPlain type (htags type (Option.mem_toList.2 htype))
  | enum d => exact .enum rfl rfl
  | action d =>
    refine .action ⟨rfl, rfl, rel_map fun a ha => ?_⟩
    refine ⟨h.retellsRefs _, h.retellsRefs _, rel_map fun type htype => ?_⟩
    refine h.retellsPlain type (hkeeps type (Option.mem_toList.2 ?_))
    exact Option.mem_bind_iff.2 ⟨a, ha, htype⟩
  | commonType d => exact .commonType rfl (h.retellsPlain _ (hkeeps _ (List.mem_singleton.2 rfl)))

end SymbolTable

theorem Decl.names_plain (d : Decl) : d.plain.names = d.names := by
  cases d <;> rfl

/-! ## Schemas -/

namespace Schema

variable {s : Schema} {r : ResolvedSchema}

theorem declarations_plain (s : Schema) :
    s.plain.declarations = s.declarations.map fun d => ⟨d.ns, d.decl.plain⟩ := by
  unfold declarations
  rw [List.map_flatMap]
  refine (List.flatMap_map ..).trans (List.flatMap_congr fun i _ => ?_)
  cases i with
  | block b => simp [Item.plain, Item.decls, Item.namespaceName, NamespaceBlock.plain]
  | decl d => rfl

theorem mem_declarations_plain {ns : String} {d' : Decl} :
    ⟨ns, d'⟩ ∈ s.plain.declarations ↔ ∃ d, ⟨ns, d⟩ ∈ s.declarations ∧ d' = d.plain := by
  rw [declarations_plain, List.mem_map]
  constructor
  · rintro ⟨⟨ns, d⟩, hd, ⟨⟩⟩
    exact ⟨d, hd, rfl⟩
  · rintro ⟨d, hd, rfl⟩
    exact ⟨_, hd, rfl⟩

/-- What is read off the names of declarations is the same in the plain schema. -/
theorem flatMap_declarations_plain {α : Type} {f : Scoped Decl → List α}
    (hf : ∀ ns d, f ⟨ns, Decl.plain d⟩ = f ⟨ns, d⟩) (s : Schema) :
    s.plain.declarations.flatMap f = s.declarations.flatMap f := by
  rw [declarations_plain, List.flatMap_map]
  exact List.flatMap_congr fun d _ => hf d.ns d.decl

theorem entityTypeNames_plain (s : Schema) : s.plain.entityTypeNames = s.entityTypeNames :=
  flatMap_declarations_plain (fun ns d => by cases d <;> rfl) s

theorem actionUids_plain (s : Schema) : s.plain.actionUids = s.actionUids :=
  flatMap_declarations_plain (fun ns d => by cases d <;> rfl) s

theorem commonTypeNames_plain (s : Schema) : s.plain.commonTypeNames = s.commonTypeNames := by
  unfold commonTypeNames
  rw [List.map_flatMap, List.map_flatMap]
  exact flatMap_declarations_plain (fun ns d => by cases d <;> rfl) s

theorem sameNames_plain (s : Schema) : s.table.SameNames s.plain.table :=
  sameNames_of_perm (.of_eq s.entityTypeNames_plain.symm) (.of_eq s.commonTypeNames_plain.symm)

theorem distinct_plain (h : s.table.Distinct) : s.plain.table.Distinct := by
  rw [distinct_table_iff] at h ⊢
  rw [entityTypeNames_plain, actionUids_plain, commonTypeNames_plain]
  refine ⟨h.1, fun ns c hc => ?_, h.2.2⟩
  obtain ⟨d, hd, heq⟩ := mem_declarations_plain.1 hc
  cases d with
  | commonType d =>
    cases heq
    exact h.2.1 ns d hd
  | _ => cases heq

/-- If all references are kept, the plain schema resolves to what the schema resolves to. -/
theorem resolve_plain
    (hkeeps : ∀ d ∈ s.declarations, ∀ type ∈ d.decl.types, s.table.Keeps s.plain.table d.ns type)
    (hr : s.resolve = .ok r) : s.plain.resolve = .ok r := by
  have hdistinct := ((resolve_eq_ok_iff s r).1 hr).distinct
  have hdecl (ns : String) (d : Decl) (hd : ⟨ns, d⟩ ∈ s.declarations) :
      s.table.RetellsDecl s.plain.table ns d d.plain :=
    s.sameNames_plain.retellsDeclPlain (hkeeps ⟨ns, d⟩ hd)
  have hretells : s.Retells s.plain := by
    refine ⟨distinct_plain hdistinct, fun ns d n hd hn => ?_, fun ns d' n hd' hn => ?_,
      fun ns d' hd' => ?_⟩
    · exact ⟨_, mem_declarations_plain.2 ⟨d, hd, rfl⟩, d.names_plain ▸ hn, hdecl ns d hd⟩
    · obtain ⟨d, hd, rfl⟩ := mem_declarations_plain.1 hd'
      exact ⟨d, hd, d.names_plain ▸ hn, hdecl ns d hd⟩
    · obtain ⟨d, hd, rfl⟩ := mem_declarations_plain.1 hd'
      exact ⟨d, hd, hdecl ns d hd⟩
  exact hretells.resolve_eq hr

end Schema

/-! ## Types that stand for the same -/

namespace SymbolTable

variable {t t' : SymbolTable} {ns n name : String} {c : Scoped CommonTypeDecl}

/-- If a record and the plain record stand for the same fields, so do their attributes. -/
theorem DenotesRecord.exists_denotesAll {attributes : List (Attribute TypeExpr)}
    {comments : Comments} {fields : Fields} (h : t.DenotesRecord ns ⟨attributes, comments⟩ fields)
    (h' : t'.DenotesRecord ns (Record.plain ⟨attributes, comments⟩) fields) :
    ∃ listed, t.DenotesAll ns attributes listed ∧
      t'.DenotesAll ns (plainAttributes attributes) listed := by
  -- Sorted by name the fields are the same; the names stand in the same order before.
  generalize hfields : fields = fields' at h'
  obtain @⟨_, _, _, listed, ha, hnodup⟩ := h
  obtain @⟨_, _, _, listed', ha', -⟩ := h'
  have hnames := ha.map_fst.trans (ha'.map_fst.trans (plainAttributes_map_name _)).symm
  rw [← Dict.eq_of_entries_ofList_eq (ha.map_fst ▸ hnodup) hnames hfields] at ha'
  exact ⟨listed, ha, ha'⟩

mutual

/-- If the plain type stands for what the type stands for, its references are kept. -/
theorem Denotes.keeps : {type : TypeExpr} → {a : ResolvedType} →
    t.Denotes ns type a → t'.Denotes ns type.plain a → t.Keeps t' ns type
  | .path _, _, _, _ => trivial
  | .entity _, _, .entity hp, h => by
    intro name hname
    cases hp.symm.trans hname
    exact h
  | .set _, _, .set ha, .set ha' => ha.keeps ha'
  | .record _, _, .record ha, .record ha' => ha.keeps ha'
termination_by structural type => type

theorem DenotesRecord.keeps : {r : Record TypeExpr} → {fields : Fields} →
    t.DenotesRecord ns r fields → t'.DenotesRecord ns (Record.plain r) fields →
      t.KeepsRecord t' ns r
  | ⟨_, _⟩, _, h, h' =>
    have ⟨_, ha, ha'⟩ := h.exists_denotesAll h'
    ha.keeps ha'
termination_by structural r => r

theorem DenotesAll.keeps : {attributes : List (Attribute TypeExpr)} →
    {fields : Fields} → t.DenotesAll ns attributes fields →
      t'.DenotesAll ns (plainAttributes attributes) fields → t.KeepsAll t' ns attributes
  | [], _, _, _ => trivial
  | ⟨_, _, _, _, _⟩ :: _, _, .cons ha hrest, .cons ha' hrest' => ⟨ha.keeps ha', hrest.keeps hrest'⟩
termination_by structural attributes => attributes

end

/-- A name of a common type stands for what its body stands for. -/
theorem Denotes.body {name : String} {p : Path} {c : Scoped CommonTypeDecl} {a : ResolvedType}
    (h : t.Denotes ns (.path p) a) (hp : t.lookupType ns p = .ok (.commonType name))
    (hc : t.commonType? name = some c) : t.Denotes c.ns c.decl.type a := by
  cases h with
  | builtin hp' => cases hp.symm.trans hp'
  | entityType hp' => cases hp.symm.trans hp'
  | commonType hp' hc' h =>
    cases hp.symm.trans hp'
    cases hc.symm.trans hc'
    exact h

/-- The type and the plain type stand for the same. -/
def AgreesOn (t t' : SymbolTable) (ns : String) (type : TypeExpr) : Prop :=
  ∃ a, t.Denotes ns type a ∧ t'.Denotes ns type.plain a

mutual

/-- If the plain type stands for what the type stands for, so does the body of a common type that is
mentioned in it. -/
theorem Denotes.agreesOn (h : t.SameNames t') (hc : t.commonType? name = some c)
    (hc' : t'.commonType? name = some ⟨c.ns, c.decl.plain⟩) :
    {type : TypeExpr} → {a : ResolvedType} → t.Denotes ns type a →
      t'.Denotes ns type.plain a → t.Mentions ns name type → t.AgreesOn t' c.ns c.decl.type
  | .path p, a, ha, ha', hm =>
    ⟨a, ha.body hm hc, ha'.body ((h.lookupType_eq ns p).trans hm) hc'⟩
  | .set _, _, .set ha, .set ha', hm => ha.agreesOn h hc hc' ha' hm
  | .record _, _, .record ha, .record ha', hm => ha.agreesOn h hc hc' ha' hm
termination_by structural type => type

theorem DenotesRecord.agreesOn (h : t.SameNames t') (hc : t.commonType? name = some c)
    (hc' : t'.commonType? name = some ⟨c.ns, c.decl.plain⟩) :
    {r : Record TypeExpr} → {fields : Fields} → t.DenotesRecord ns r fields →
      t'.DenotesRecord ns (Record.plain r) fields → t.MentionsIn ns name r →
        t.AgreesOn t' c.ns c.decl.type
  | ⟨_, _⟩, _, hr, hr', hm =>
    have ⟨_, ha, ha'⟩ := hr.exists_denotesAll hr'
    ha.agreesOn h hc hc' ha' hm
termination_by structural r => r

theorem DenotesAll.agreesOn (h : t.SameNames t') (hc : t.commonType? name = some c)
    (hc' : t'.commonType? name = some ⟨c.ns, c.decl.plain⟩) :
    {attributes : List (Attribute TypeExpr)} → {fields : Fields} →
      t.DenotesAll ns attributes fields → t'.DenotesAll ns (plainAttributes attributes) fields →
      t.MentionsAny ns name attributes → t.AgreesOn t' c.ns c.decl.type
  | [], _, _, _, hm => hm.elim
  | ⟨_, _, _, _, _⟩ :: _, _, .cons ha hrest, .cons ha' hrest', hm =>
    hm.elim (ha.agreesOn h hc hc' ha') (hrest.agreesOn h hc hc' hrest')
termination_by structural attributes => attributes

end

theorem exists_of_rel_map {α β : Type} {R R' : α → β → Prop} {f : α → α} {a : Option α}
    {b : Option β} (h : Option.Rel R a b) (h' : Option.Rel R' (a.map f) b) :
    ∀ x ∈ a, ∃ y, R x y ∧ R' (f x) y := by
  intro x hx
  cases hx
  cases h with
  | some h =>
    cases h' with
    | some h' => exact ⟨_, h, h'⟩

/-- If the plain declaration says what the declaration says, the plain types of it do. -/
theorem EntityOf.agreesOn {d : EntityDecl} {e : ResolvedEntity} (h : t.EntityOf ⟨ns, d⟩ n e)
    (h' : t'.EntityOf ⟨ns, d.plain⟩ n e) :
    ∀ type ∈ (Decl.entity d).types, t.AgreesOn t' ns type := by
  refine List.forall_mem_append.2 ⟨fun type htype => ?_, fun type htype => ?_⟩
  · obtain ⟨r, hr, rfl⟩ := Option.map_eq_some_iff.1 (Option.mem_toList.1 htype)
    obtain ⟨fields, hfields, hfields'⟩ := exists_of_rel_map h.shape h'.shape r hr
    exact ⟨_, .record hfields, .record hfields'⟩
  · exact exists_of_rel_map h.tags h'.tags type (Option.mem_toList.1 htype)

theorem ActionOf.agreesOn {d : ActionDecl} {a : ResolvedAction} (h : t.ActionOf ⟨ns, d⟩ n a)
    (h' : t'.ActionOf ⟨ns, d.plain⟩ n a) :
    ∀ type ∈ (Decl.action d).types, t.AgreesOn t' ns type := by
  intro type htype
  obtain ⟨x, hx, hcontext⟩ := Option.mem_bind_iff.1 (Option.mem_toList.1 htype)
  obtain ⟨y, hy, hy'⟩ := exists_of_rel_map h.appliesTo h'.appliesTo x hx
  have hf := hy.context
  have hf' : t'.ContextOf ns (x.context.map TypeExpr.plain) y.context := hy'.context
  rw [hcontext] at hf hf'
  cases hf with
  | some hf =>
    cases hf' with
    | some hf' => exact ⟨_, hf, hf'⟩

end SymbolTable

/-! ## Lost references change the meaning -/

namespace Schema

variable {s : Schema} {r : ResolvedSchema}

/-- The types that entity types and actions get their meaning from: those they are declared with,
and the bodies of the common types that are mentioned in such a type. -/
inductive Uses (s : Schema) : String → TypeExpr → Prop
  | declared {ns n : String} {d : Decl} {type : TypeExpr} (hd : ⟨ns, d⟩ ∈ s.declarations)
      (hc : ∀ c, d ≠ .commonType c) (hn : n ∈ d.names) (htype : type ∈ d.types) : Uses s ns type
  | body {ns name : String} {type : TypeExpr} {c : Scoped CommonTypeDecl} (h : Uses s ns type)
      (hname : s.table.Mentions ns name type) (hc : s.table.commonType? name = some c) :
    Uses s c.ns c.decl.type

theorem commonType?_plain (h : s.table.Distinct) {name : String} {c : Scoped CommonTypeDecl}
    (hc : s.table.commonType? name = some c) :
    s.plain.table.commonType? name = some ⟨c.ns, c.decl.plain⟩ := by
  rw [commonType?_eq_some_iff h.commonTypes, mem_table_commonTypes] at hc
  rw [commonType?_eq_some_iff (distinct_plain h).commonTypes, mem_table_commonTypes]
  exact ⟨hc.1, mem_declarations_plain.2 ⟨_, hc.2, rfl⟩⟩

section

variable (hr : s.Means r) (hr' : s.plain.Means r)

include hr hr'

/-- An entity type says the same in both schemas if they mean the same. -/
theorem exists_entityOf_plain {ns n : String} {d : EntityDecl}
    (hd : ⟨ns, .entity d⟩ ∈ s.declarations) (hn : n ∈ d.names) :
    ∃ e, s.table.EntityOf ⟨ns, d⟩ n e ∧ s.plain.table.EntityOf ⟨ns, d.plain⟩ n e := by
  have hd' : ⟨ns, .entity d.plain⟩ ∈ s.plain.declarations := mem_declarations_plain.2 ⟨_, hd, rfl⟩
  obtain ⟨e, he⟩ := hr.entities ns d hd n
  obtain ⟨e', he'⟩ := hr'.entities ns d.plain hd' n
  have hfind := (hr.entries.entities _ e).2 ⟨ns, d, n, hd, hn, rfl, he⟩
  have hfind' := (hr'.entries.entities _ e').2 ⟨ns, d.plain, n, hd', hn, rfl, he'⟩
  -- The two declarations fill one entry of one dictionary.
  cases hfind.symm.trans hfind'
  exact ⟨e, he, he'⟩

theorem exists_actionOf_plain {ns n : String} {d : ActionDecl}
    (hd : ⟨ns, .action d⟩ ∈ s.declarations) (hn : n ∈ d.names) :
    ∃ a, s.table.ActionOf ⟨ns, d⟩ n a ∧ s.plain.table.ActionOf ⟨ns, d.plain⟩ n a := by
  have hd' : ⟨ns, .action d.plain⟩ ∈ s.plain.declarations := mem_declarations_plain.2 ⟨_, hd, rfl⟩
  obtain ⟨a, ha⟩ := hr.actions ns d hd n hn
  obtain ⟨a', ha'⟩ := hr'.actions ns d.plain hd' n hn
  have hfind := (hr.entries.actions _ a).2 ⟨ns, d, n, hd, hn, rfl, ha⟩
  have hfind' := (hr'.entries.actions _ a').2 ⟨ns, d.plain, n, hd', hn, rfl, ha'⟩
  cases hfind.symm.trans hfind'
  exact ⟨a, ha, ha'⟩

/-- A type that is used stands for the same in both schemas if they mean the same. -/
theorem Uses.agreesOn {ns : String} {type : TypeExpr} (h : s.Uses ns type) :
    s.table.AgreesOn s.plain.table ns type := by
  induction h with
  | @declared ns n d type hd hc hn htype =>
    cases d with
    | entity d =>
      obtain ⟨e, he, he'⟩ := exists_entityOf_plain hr hr' hd hn
      exact he.agreesOn he' type htype
    | enum d => cases htype
    | action d =>
      obtain ⟨a, ha, ha'⟩ := exists_actionOf_plain hr hr' hd hn
      exact ha.agreesOn ha' type htype
    | commonType d => exact (hc d rfl).elim
  | body h hname hc ih =>
    obtain ⟨a, ha, ha'⟩ := ih
    exact ha.agreesOn s.sameNames_plain hc (commonType?_plain hr.distinct hc) ha' hname

end

/-- If the plain schema resolves to what the schema resolves to, all references that are used are
kept. -/
theorem keeps_of_resolve_plain (hr : s.resolve = .ok r) (hr' : s.plain.resolve = .ok r)
    {ns : String} {type : TypeExpr} (h : s.Uses ns type) : s.table.Keeps s.plain.table ns type := by
  rw [resolve_eq_ok_iff] at hr hr'
  obtain ⟨a, ha, ha'⟩ := h.agreesOn hr hr'
  exact ha.keeps ha'

end Schema

end CedarSchema
