import CedarSchema.Proofs.Document.Names
import CedarSchema.Proofs.Resolve.Retelling

/-
  A schema with a namespace more. A block whose path no other block has may be added anywhere: what
  was declared before keeps its meaning, and all that is new is named under the path of the block
  (`Schema.extends_of_addBlock`). No reference is caught by a name that the block brings. An
  unqualified name is tried in its own namespace and in the root namespace, and the block adds to
  neither. A qualified name was found already, so it is in a namespace that was there before, and a
  full name shows what namespace it is in (`namespaceOf_qualify`).
-/

namespace CedarSchema

open Text SymbolTable

/-! ## The namespace of a full name -/

/-- The namespace that a full name is in, as it is spelled. -/
def namespaceOf (name : String) : String := (Path.ofText name).namespaceText

theorem namespaceOf_qualify {ns n : String} (hns : ns ≠ "" → WritableName ns)
    (hn : isIdent n = true) : namespaceOf (qualify ns n) = ns := by
  have hbase : Path.ofText n = ⟨[n]⟩ := Path.ofText_of_isIdent hn
  unfold namespaceOf qualify
  split
  · rename_i hroot
    rw [hbase, hroot]
    rfl
  · rename_i hroot
    rw [Path.ofText_append (hns hroot), hbase]
    show join "::" (((Path.ofText ns).segments ++ [n]).dropLast) = ns
    rw [List.dropLast_concat]
    exact Path.text_ofText ns

theorem Path.Writable.isIdent_basename {p : Path} (h : p.Writable) : isIdent p.basename = true := by
  rw [basename, List.getLast?_eq_some_getLast h.nonempty]
  exact h.segments _ (List.getLast_mem h.nonempty)

/-- Another namespace than these two has none of the names that an unqualified reference is tried
as. -/
theorem namespaceOf_candidates_ne {ns new : String} (hnew : new ≠ "")
    (hns : ns ≠ "" → WritableName ns) (hne : ns ≠ new) {p : Path} (hp : p.Writable) :
    namespaceOf (qualify ns p.basename) ≠ new ∧ namespaceOf p.basename ≠ new := by
  have hroot : namespaceOf (qualify "" p.basename) = "" :=
    namespaceOf_qualify (fun hne => (hne rfl).elim) hp.isIdent_basename
  rw [namespaceOf_qualify hns hp.isIdent_basename]
  exact ⟨hne, fun heq => hnew (heq.symm.trans hroot)⟩

/-! ## References -/

namespace SymbolTable

/-- In the namespace `ns` every reference that text can spell means what it meant. -/
structure KeepsRefs (t t' : SymbolTable) (ns : String) : Prop where
  lookupType : ∀ p b, p.Writable → t.lookupType ns p = .ok b → t'.lookupType ns p = .ok b
  lookupEntityType : ∀ p name, p.Writable → t.lookupEntityType ns p = .ok name →
    t'.lookupEntityType ns p = .ok name

/-- The second table declares what the first declares, and besides only names in the namespace
`new`, in which the first declares nothing. -/
structure GrowsIn (t t' : SymbolTable) (new : String) : Prop where
  commonTypes : ∀ name, namespaceOf name ≠ new → t'.hasCommonType name = t.hasCommonType name
  entityTypes : ∀ name, namespaceOf name ≠ new → t'.hasEntityType name = t.hasEntityType name
  noCommonType : ∀ name, t.hasCommonType name = true → namespaceOf name ≠ new
  noEntityType : ∀ name, t.hasEntityType name = true → namespaceOf name ≠ new

section

variable {t t' : SymbolTable} {new ns : String} (h : t.GrowsIn t' new)

include h

theorem GrowsIn.bindFull_eq {name : String} (hname : namespaceOf name ≠ new) :
    t'.bindFull name = t.bindFull name := by
  unfold bindFull
  rw [h.commonTypes name hname, h.entityTypes name hname]

theorem GrowsIn.hasEntityType {name : String} (hname : t.hasEntityType name = true) :
    t'.hasEntityType name = true := by
  rw [h.entityTypes name (h.noEntityType name hname), hname]

/-- What is found under a full name is still found there. -/
theorem GrowsIn.bindFull {name : String} {b : Binding} (hb : t.bindFull name = some b) :
    t'.bindFull name = some b := by
  have hname : namespaceOf name ≠ new := by
    rcases bindFull_cases hb with ⟨hcommon, -⟩ | ⟨hentity, -⟩
    · exact h.noCommonType name hcommon
    · exact h.noEntityType name hentity
  rw [h.bindFull_eq hname, hb]

variable (hnew : new ≠ "") (hns : ns ≠ "" → WritableName ns) (hne : ns ≠ new)

include hnew hns hne

/-- What a reference to a type means it still means. -/
theorem GrowsIn.lookupType {p : Path} (hp : p.Writable) {b : Binding}
    (hb : t.lookupType ns p = .ok b) : t'.lookupType ns p = .ok b := by
  obtain ⟨hown, hroot⟩ := namespaceOf_candidates_ne hnew hns hne hp
  have hunqualified : t'.bindUnqualified ns p.basename = t.bindUnqualified ns p.basename := by
    unfold bindUnqualified
    rw [h.bindFull_eq hown, h.bindFull_eq hroot]
  unfold SymbolTable.lookupType at hb ⊢
  rw [hunqualified]
  split
  · rename_i hqualified
    rw [if_pos hqualified] at hb
    split
    · rename_i hhead
      rwa [if_pos hhead] at hb
    · rename_i hhead
      rw [if_neg hhead] at hb
      cases hfull : t.bindFull p.text with
      | none =>
        rw [hfull] at hb
        cases hb
      | some found =>
        rw [hfull] at hb
        rw [h.bindFull hfull]
        exact hb
  · rename_i hqualified
    rwa [if_neg hqualified] at hb

/-- What a reference to an entity type names it still names. -/
theorem GrowsIn.lookupEntityType {p : Path} (hp : p.Writable) {name : String}
    (hname : t.lookupEntityType ns p = .ok name) : t'.lookupEntityType ns p = .ok name := by
  obtain ⟨hown, hroot⟩ := namespaceOf_candidates_ne hnew hns hne hp
  have hfind (hfound : (entityCandidates ns p).find? t.hasEntityType = some name) :
      (entityCandidates ns p).find? t'.hasEntityType = some name := by
    unfold entityCandidates at hfound ⊢
    split
    · rename_i hqualified
      rw [if_pos hqualified] at hfound
      have hname : p.text = name := List.mem_singleton.1 (List.mem_of_find?_eq_some hfound) ▸ rfl
      rw [hname, List.find?_cons_of_pos (h.hasEntityType (List.find?_some hfound))]
    · rename_i hqualified
      rw [if_neg hqualified] at hfound
      rw [List.find?_cons, List.find?_cons, h.entityTypes _ hown, h.entityTypes _ hroot]
      exact hfound
  unfold SymbolTable.lookupEntityType at hname ⊢
  split at hname
  · rename_i found hfound
    cases hname
    rw [hfind hfound]
  · cases hname

/-- Wherever it stands outside of the new namespace, a reference means what it meant. -/
theorem GrowsIn.keepsRefs : t.KeepsRefs t' ns :=
  ⟨fun _ _ hp => h.lookupType hnew hns hne hp,
    fun _ _ hp => h.lookupEntityType hnew hns hne hp⟩

end

/-! ## Declarations -/

section

variable {t t' : SymbolTable} {ns : String}

mutual

/-- Where references mean what they meant, every type says what it said. -/
theorem KeepsRefs.retells (h : t.KeepsRefs t' ns) : (type : TypeExpr) → type.Writable →
    t.Retells t' ns type type
  | .path p, hp => .path fun b => h.lookupType p b hp
  | .entity p, hp => .entity fun name => h.lookupEntityType p name hp
  | .set element, hw => .set (h.retells element hw)
  | .record r, hw => .record (h.retellsRecord r hw)
termination_by structural type => type

theorem KeepsRefs.retellsRecord (h : t.KeepsRefs t' ns) : (r : Record TypeExpr) →
    Record.Writable r → t.RetellsRecord t' ns r r
  | ⟨attributes, _⟩, ⟨hw, _⟩ => .mk (h.retellsAll attributes hw)
termination_by structural r => r

theorem KeepsRefs.retellsAll (h : t.KeepsRefs t' ns) : (attributes : List (Attribute TypeExpr)) →
    WritableAttributes attributes → t.RetellsAll t' ns attributes attributes
  | [], _ => .nil
  | ⟨_, type, _, _, _⟩ :: rest, ⟨⟨htype, _⟩, hrest⟩ =>
    .cons (h.retells type htype) (h.retellsAll rest hrest)
termination_by structural attributes => attributes

end

variable (h : t.KeepsRefs t' ns)

include h

theorem KeepsRefs.retellsRefs {refs : List Path} (hrefs : ∀ p ∈ refs, p.Writable) :
    t.RetellsRefs t' ns refs refs := by
  intro names hnames
  induction hnames with
  | nil => exact .nil
  | cons hname _ ih =>
    obtain ⟨hp, hrest⟩ := List.forall_mem_cons.1 hrefs
    exact .cons (h.lookupEntityType _ _ hp hname) (ih hrest)

theorem KeepsRefs.retellsAppliesTo {a : AppliesTo} (ha : a.Writable) :
    t.RetellsAppliesTo t' ns a a where
  principals := h.retellsRefs (Document.forall_mem_getD ha.principals)
  resources := h.retellsRefs (Document.forall_mem_getD ha.resources)
  context := rel_refl fun type htype => h.retells type (ha.context type htype)

/-- Where references mean what they meant, every declaration says what it said. -/
theorem KeepsRefs.retellsDecl {d : Decl} (hd : d.WritableBody) : t.RetellsDecl t' ns d d := by
  cases d with
  | entity d =>
    have hd : d.Writable := hd
    refine .entity ⟨rfl, h.retellsRefs hd.parents, ?_, ?_⟩
    · exact rel_refl fun r hr => h.retellsRecord r (hd.shape r hr)
    · exact rel_refl fun type htype => h.retells type (hd.tags type htype)
  | enum d => exact .enum rfl rfl
  | action d =>
    have hd : d.Writable := hd
    exact .action ⟨rfl, rfl, rel_refl fun a ha => h.retellsAppliesTo (hd.appliesTo a ha)⟩
  | commonType d =>
    have hd : d.Writable := hd
    exact .commonType rfl (h.retells d.type hd.type)

end

end SymbolTable

/-! ## Schemas -/

/-- The second dictionary has the entries of the first, and the others have keys of which `new`
holds. -/
structure Dict.Extends {κ α : Type} [Ord κ] (d d' : Dict κ α) (new : κ → Prop) : Prop where
  kept : ∀ k v, d.find? k = some v → d'.find? k = some v
  added : ∀ k v, d'.find? k = some v → d.find? k = some v ∨ new k

/-- The full name is that of something declared in the namespace of the path. -/
def Path.Names (p : Path) (name : String) : Prop :=
  ∃ n, isIdent n = true ∧ name = p.text ++ "::" ++ n

theorem Path.Writable.names_qualify {p : Path} (h : p.Writable) {n : String}
    (hn : isIdent n = true) : p.Names (qualify p.text n) :=
  ⟨n, hn, if_neg h.text_ne_empty⟩

/-- Everything is kept as it is, and all else is named under the path. -/
structure ResolvedSchema.Extends (r r' : ResolvedSchema) (p : Path) : Prop where
  entities : r.entities.Extends r'.entities p.Names
  enums : r.enums.Extends r'.enums p.Names
  actions : r.actions.Extends r'.actions fun uid => p.Names uid.type

namespace Schema

/-- The block has names that text can spell, and no block of the schema has its path. -/
structure Admits (s : Schema) (b : NamespaceBlock) : Prop where
  path : b.path.Writable
  names : ∀ d ∈ b.decls, ∀ n ∈ d.typeNames, isIdent n = true
  new : ∀ b', .block b' ∈ s.items → b'.path ≠ b.path

section

variable {s s' : Schema} {b : NamespaceBlock}

theorem DeclaresWritable.namespaceOf_qualify (h : s.DeclaresWritable) {d : Scoped Decl}
    (hd : d ∈ s.declarations) {n : String} (hn : n ∈ d.decl.typeNames) :
    namespaceOf (qualify d.ns n) = d.ns :=
  CedarSchema.namespaceOf_qualify (h.ns hd) (h.types d hd n hn)

/-- Nothing is declared in the namespace of the block yet. -/
theorem Admits.ns_ne (hb : s.Admits b) (hs : s.Written) {d : Scoped Decl}
    (hd : d ∈ s.declarations) : d.ns ≠ b.path.text := by
  obtain ⟨i, hi, hns, -⟩ := mem_declarations_iff.1 hd
  rw [hns]
  cases i with
  | decl d => exact hb.path.text_ne_empty.symm
  | block b' =>
    intro htext
    have hspelled : b'.path = Path.ofText b'.path.text :=
      (NamespaceBlock.Writable.path (hs.1.items _ hi)).spelled.symm
    have htext : b'.path.text = b.path.text := htext
    refine hb.new b' hi ?_
    rw [hspelled, htext, hb.path.spelled]

variable (hitems : s'.items.Perm (.block b :: s.items))

include hitems

theorem mem_declarations_of_perm {ns : String} {d : Decl} : ⟨ns, d⟩ ∈ s'.declarations ↔
    (ns = b.path.text ∧ d ∈ b.decls) ∨ ⟨ns, d⟩ ∈ s.declarations := by
  rw [mem_declarations_iff, mem_declarations_iff]
  simp only [hitems.mem_iff, List.mem_cons, exists_eq_or_imp]
  rfl

theorem DeclaresWritable.addBlock (hs : s.DeclaresWritable) (hb : s.Admits b) :
    s'.DeclaresWritable := by
  constructor
  · intro ns hns hroot
    obtain ⟨i, hi, rfl⟩ := mem_keys_namespaces.1 hns
    obtain rfl | hi := List.mem_cons.1 (hitems.mem_iff.1 hi)
    · exact hb.path.spelled.writable_iff.1 hb.path
    · exact hs.namespaces _ (mem_keys_namespaces.2 ⟨i, hi, rfl⟩) hroot
  · intro d hd n hn
    obtain ⟨-, hd⟩ | hd := (mem_declarations_of_perm hitems).1 hd
    · exact hb.names d.decl hd n hn
    · exact hs.types d hd n hn

variable (hs : s.Written) (hb : s.Admits b)

include hs hb

section

-- The names of types of one kind that a declaration declares.
variable {f : Scoped Decl → List String}
  (hf : ∀ d name, name ∈ f d → ∃ n ∈ d.decl.typeNames, name = qualify d.ns n) {name : String}

include hf

omit hitems in
theorem namespaceOf_ne_of_declared (hname : ∃ d ∈ s.declarations, name ∈ f d) :
    namespaceOf name ≠ b.path.text := by
  obtain ⟨d, hd, hname⟩ := hname
  obtain ⟨n, hn, rfl⟩ := hf d name hname
  rw [hs.declaresWritable.namespaceOf_qualify hd hn]
  exact hb.ns_ne hs hd

/-- In another namespace than that of the block nothing is declared besides. -/
theorem exists_declared_iff (hne : namespaceOf name ≠ b.path.text) :
    (∃ d ∈ s'.declarations, name ∈ f d) ↔ ∃ d ∈ s.declarations, name ∈ f d := by
  constructor
  · intro ⟨d, hd, hname⟩
    obtain ⟨hns, -⟩ | hold := (mem_declarations_of_perm hitems).1 hd
    · obtain ⟨n, hn, rfl⟩ := hf d name hname
      have hdeclared : s'.DeclaresWritable := hs.declaresWritable.addBlock hitems hb
      rw [hdeclared.namespaceOf_qualify hd hn] at hne
      exact (hne hns).elim
    · exact ⟨d, hold, hname⟩
  · intro ⟨d, hd, hname⟩
    exact ⟨d, (mem_declarations_of_perm hitems).2 (.inr hd), hname⟩

end

/-- The names of types that are declared besides are in the namespace of the block. -/
theorem growsIn_of_addBlock : s.table.GrowsIn s'.table b.path.text := by
  have hcommon (d : Scoped Decl) (name : String) (h : name ∈ d.commonTypes.map Prod.fst) :=
    d.exists_of_mem_commonTypes h
  have hentity (d : Scoped Decl) (name : String) (h : name ∈ d.entityTypeNames) :=
    d.exists_of_mem_entityTypeNames h
  constructor
  · intro name hne
    rw [Bool.eq_iff_iff, hasCommonType_table_iff, hasCommonType_table_iff]
    exact exists_declared_iff hitems hs hb hcommon hne
  · intro name hne
    rw [Bool.eq_iff_iff, hasEntityType_table_iff, hasEntityType_table_iff]
    exact exists_declared_iff hitems hs hb hentity hne
  · intro name hname
    exact namespaceOf_ne_of_declared hs hb hcommon (hasCommonType_table_iff.1 hname)
  · intro name hname
    exact namespaceOf_ne_of_declared hs hb hentity (hasEntityType_table_iff.1 hname)

/-- All that was declared still is, and says what it said. -/
theorem retellsDecl_of_addBlock {ns : String} {d : Decl} (hd : ⟨ns, d⟩ ∈ s.declarations) :
    ⟨ns, d⟩ ∈ s'.declarations ∧ s.table.RetellsDecl s'.table ns d d := by
  have hgrows := growsIn_of_addBlock hitems hs hb
  have hrefs : s.table.KeepsRefs s'.table ns :=
    hgrows.keepsRefs hb.path.text_ne_empty (hs.declaresWritable.ns hd) (hb.ns_ne hs hd)
  exact ⟨(mem_declarations_of_perm hitems).2 (.inr hd),
    hrefs.retellsDecl (hs.of_mem_declarations hd).1.body⟩

theorem toldIn_of_addBlock : s.ToldIn s' := by
  intro ns d n hd hn
  obtain ⟨hd', htold⟩ := retellsDecl_of_addBlock hitems hs hb hd
  exact ⟨d, hd', hn, htold⟩

variable {r r' : ResolvedSchema} (hr : s.Means r) (hr' : s'.Means r')

include hr hr'

theorem entities_extends_of_addBlock : r.entities.Extends r'.entities b.path.Names := by
  have htold := toldIn_of_addBlock hitems hs hb
  have hbodies := htold.retellsBodies hr'.distinct hr.distinct
  constructor
  · intro name e he
    exact (hr'.entries.entities name e).2 (htold.exists_entity hr'.distinct hr he)
  · intro name e he
    obtain ⟨ns, d, n, hd, hn, hname, he⟩ := (hr'.entries.entities name e).1 he
    obtain ⟨hns, hd⟩ | hd := (mem_declarations_of_perm hitems).1 hd
    · right
      rw [hname, hns]
      exact hb.path.names_qualify (hb.names _ hd n hn)
    · obtain ⟨-, hdecl⟩ := retellsDecl_of_addBlock hitems hs hb hd
      cases hdecl with
      | entity hdecl =>
        have he := hdecl.entityOf_of_told hbodies (hr.entities ns d hd n) he
        exact .inl ((hr.entries.entities name e).2 ⟨ns, d, n, hd, hn, hname, he⟩)

theorem enums_extends_of_addBlock : r.enums.Extends r'.enums b.path.Names := by
  have htold := toldIn_of_addBlock hitems hs hb
  constructor
  · intro name e he
    exact (hr'.entries.enums name e).2 (htold.exists_enum hr he)
  · intro name e he
    obtain ⟨ns, d, n, hd, hn, hname, he⟩ := (hr'.entries.enums name e).1 he
    obtain ⟨hns, hd⟩ | hd := (mem_declarations_of_perm hitems).1 hd
    · right
      rw [hname, hns]
      exact hb.path.names_qualify (hb.names _ hd n hn)
    · exact .inl ((hr.entries.enums name e).2 ⟨ns, d, n, hd, hn, hname, he⟩)

theorem actions_extends_of_addBlock :
    r.actions.Extends r'.actions fun uid => b.path.Names uid.type := by
  have htold := toldIn_of_addBlock hitems hs hb
  have hbodies := htold.retellsBodies hr'.distinct hr.distinct
  constructor
  · intro uid a ha
    exact (hr'.entries.actions uid a).2 (htold.exists_action hr'.distinct hr ha)
  · intro uid a ha
    obtain ⟨ns, d, n, hd, hn, huid, ha⟩ := (hr'.entries.actions uid a).1 ha
    obtain ⟨hns, hd⟩ | hd := (mem_declarations_of_perm hitems).1 hd
    · right
      rw [huid, hns]
      exact hb.path.names_qualify (by decide)
    · obtain ⟨-, hdecl⟩ := retellsDecl_of_addBlock hitems hs hb hd
      cases hdecl with
      | action hdecl =>
        have ha := hdecl.actionOf_of_told hbodies (hr.actions ns d hd n hn) ha
        exact .inl ((hr.entries.actions uid a).2 ⟨ns, d, n, hd, hn, huid, ha⟩)

end

/-- Adding a namespace changes nothing of what a schema means, and all it adds is named under its
path. The block may stand anywhere among the items. -/
theorem extends_of_addBlock {text : String} {s s' : Schema} {b : NamespaceBlock}
    {r r' : ResolvedSchema} (hs : parse text = .ok s) (hr : s.resolve = .ok r)
    (hb : s.Admits b) (hitems : s'.items.Perm (.block b :: s.items))
    (hr' : s'.resolve = .ok r') : r.Extends r' b.path := by
  have hw : s.Written := (written_of_parse text).of_ok hs
  have hr := (resolve_eq_ok_iff s r).1 hr
  have hr' := (resolve_eq_ok_iff s' r').1 hr'
  exact ⟨entities_extends_of_addBlock hitems hw hb hr hr',
    enums_extends_of_addBlock hitems hw hb hr hr', actions_extends_of_addBlock hitems hw hb hr hr'⟩

/-- Users in groups, each with a rank. -/
def teams : Schema where
  items := [
    .decl (.entity { names := ["G"] }),
    .block {
      path := ⟨["T"]⟩
      decls := [
        .commonType { name := "R", type := .path ⟨["Long"]⟩ },
        .entity {
          names := ["U"]
          parents := [⟨["G"]⟩]
          shape := some { attributes := [{ name := "r", type := .path ⟨["R"]⟩ }] } }] }]

/-- A namespace below that of the users, which declares all the names that are referred to there. -/
def subTeams : NamespaceBlock where
  path := ⟨["T", "S"]⟩
  decls := [
    .entity { names := ["G", "Long"] },
    .commonType { name := "R", type := .set (.path ⟨["G"]⟩) }]

theorem exists_resolve_teams : ∃ r, teams.resolve = .ok r := by
  refine exists_ok_of_isOk ?_
  cbv

theorem exists_resolve_subTeams :
    ∃ r, Schema.resolve { teams with items := .block subTeams :: teams.items } = .ok r := by
  refine exists_ok_of_isOk ?_
  cbv

theorem extends_of_addBlock_teams :
    let text := "entity G;namespace T\x7btype R=Long;entity U in G\x7br:R\x7d;\x7d"
    ∃ r r', parse text = .ok teams ∧ teams.resolve = .ok r ∧ teams.Admits subTeams ∧
      Schema.resolve { teams with items := .block subTeams :: teams.items } = .ok r' ∧
      r.Extends r' subTeams.path := by
  have hs : parse "entity G;namespace T\x7btype R=Long;entity U in G\x7br:R\x7d;\x7d" =
      .ok teams := by
    cbv
  have hb : teams.Admits subTeams := by
    refine ⟨⟨List.cons_ne_nil _ _, by decide⟩, by decide, fun b' hb' => ?_⟩
    simp only [teams, List.mem_cons, reduceCtorEq, false_or, List.not_mem_nil, or_false] at hb'
    cases hb'
    decide
  obtain ⟨r, hr⟩ := exists_resolve_teams
  obtain ⟨r', hr'⟩ := exists_resolve_subTeams
  exact ⟨r, r', hs, hr, hb, hr', extends_of_addBlock hs hr hb (.refl _) hr'⟩

end Schema

end CedarSchema
