import CedarSchema.Proofs.Document.Declarations
import CedarSchema.Proofs.Parse.Writable

/-
  The normal form of a schema that was read from text can be written as text, and as the very same
  schema: it has no names but those of the schema, no comments, and no reference that names an
  entity type and nothing else.
-/

namespace CedarSchema

/-! ## Annotations and comments -/

theorem comments_writable_empty : Comments.Writable {} := ⟨nofun, nofun, nofun⟩

theorem writableAnnotations_nil : WritableAnnotations [] :=
  ⟨List.forall_mem_nil _, List.nodup_nil⟩

theorem writableAnnotations_normal {annotations : List Annotation}
    (h : ∀ a ∈ annotations, Text.isIdent a.key = true) :
    WritableAnnotations (normalAnnotations annotations) := by
  have hkeys : (normalAnnotations annotations).map Annotation.key =
      (annotationDict annotations).keys := by
    rw [normalAnnotations, List.map_map]
    rfl
  refine ⟨fun a ha => ?_, hkeys ▸ Dict.nodup_keys _⟩
  obtain ⟨e, he, rfl⟩ := List.mem_map.1 ha
  obtain ⟨b, hb, rfl⟩ := List.mem_map.1 (Dict.mem_of_mem_ofList he)
  exact h b hb

/-! ## Types -/

structure Attribute.Written (a : Attribute TypeExpr) : Prop where
  type : a.type.Written
  annotations : WritableAnnotations a.annotations
  comments : a.comments.AtNode

theorem writableAttributes_of_written {attributes : List (Attribute TypeExpr)}
    (h : ∀ a ∈ attributes, a.Written) :
    WritableAttributes attributes ∧ plainAttributes attributes = attributes := by
  induction attributes with
  | nil => exact ⟨trivial, rfl⟩
  | cons a rest ih =>
    obtain ⟨ha, hrest⟩ := List.forall_mem_cons.1 h
    obtain ⟨hwritable, hplain⟩ := ih hrest
    obtain ⟨name, type, required, annotations, comments⟩ := a
    refine ⟨⟨⟨ha.type.1, ha.annotations, ha.comments⟩, hwritable⟩, ?_⟩
    have htype : type.plain = type := ha.type.2
    rw [plainAttributes, hplain, htype]

mutual

theorem TypeExpr.Written.normal : (t : TypeExpr) → t.Written → t.normal.Written
  | .path _, h => h
  | .entity _, h => nomatch h.2
  | .set element, h => by
    obtain ⟨hwritable, hplain⟩ := h
    have helement := TypeExpr.Written.normal element ⟨hwritable, TypeExpr.set.inj hplain⟩
    exact ⟨helement.1, congrArg TypeExpr.set helement.2⟩
  | .record r, h => by
    obtain ⟨hwritable, hplain⟩ := h
    have hr := Record.Written.normal r ⟨hwritable, TypeExpr.record.inj hplain⟩
    exact ⟨hr.1, congrArg TypeExpr.record hr.2⟩
termination_by t => sizeOf t

theorem Record.Written.normal : (r : Record TypeExpr) → Record.Written r →
    Record.Written (Record.normal r)
  | ⟨attributes, comments⟩, h => by
    obtain ⟨⟨hwritable, -, -⟩, hplain⟩ := h
    have hplain : plainAttributes attributes = attributes := congrArg Record.attributes hplain
    have hentries := written_normalAttributes attributes hwritable hplain
    have hall : ∀ a ∈ (Record.normal ⟨attributes, comments⟩).attributes, a.Written := by
      intro a ha
      obtain ⟨e, he, rfl⟩ := List.mem_map.1 ha
      exact hentries e (Dict.mem_of_mem_ofList he)
    obtain ⟨hw, hp⟩ := writableAttributes_of_written hall
    refine ⟨⟨hw, nodup_normal_names ⟨attributes, comments⟩, comments_writable_empty, rfl, rfl⟩, ?_⟩
    exact congrArg (Record.mk · {}) hp
termination_by r => sizeOf r

theorem written_normalAttributes : (attributes : List (Attribute TypeExpr)) →
    WritableAttributes attributes → plainAttributes attributes = attributes →
      ∀ e ∈ normalAttributes attributes, e.2.Written
  | [], _, _ => nofun
  | ⟨name, type, required, annotations, comments⟩ :: rest, h, hplain => by
    obtain ⟨⟨ht, ha, -⟩, hrest⟩ := h
    obtain ⟨hfirst, hplain⟩ := List.cons.inj hplain
    have htype := TypeExpr.Written.normal type ⟨ht, congrArg Attribute.type hfirst⟩
    refine List.forall_mem_cons.2 ⟨?_, written_normalAttributes rest hrest hplain⟩
    exact ⟨htype, writableAnnotations_normal ha.idents, comments_writable_empty, rfl⟩
termination_by attributes => sizeOf attributes

end

/-! ## Declarations -/

/-- An optional part that is writable and reads as itself has a normal form that is written, if
normal forms of such parts are. -/
theorem forall_map_normal {α : Type} {part : Option α} {plain normal : α → α}
    {Writable Written : α → Prop} (hwritable : ∀ a ∈ part, Writable a)
    (hplain : part.map plain = part) (h : ∀ a, Writable a ∧ plain a = a → Written (normal a)) :
    ∀ a ∈ part.map normal, Written a := by
  cases part with
  | none => exact nofun
  | some a =>
    rintro _ ⟨⟩
    exact h a ⟨hwritable a rfl, Option.some.inj hplain⟩

theorem AppliesTo.Written.normal {a : AppliesTo} (h : a.Written) : a.normal.Written := by
  obtain ⟨hw, hplain⟩ := h
  have htype : ∀ t ∈ a.context.map TypeExpr.normal, t.Written :=
    forall_map_normal hw.context (congrArg AppliesTo.context hplain) TypeExpr.Written.normal
  refine ⟨⟨hw.principals, hw.resources, fun t ht => (htype t ht).1, comments_writable_empty, rfl,
    rfl⟩, ?_⟩
  rw [AppliesTo.plain, AppliesTo.normal, map_eq_self fun t ht => (htype t ht).2]

theorem EntityDecl.Written.normal {d : EntityDecl} (h : d.Writable) (hplain : d.plain = d)
    (n : String) (hn : n ∈ d.names) : (d.normal n).Writable ∧ (d.normal n).plain = d.normal n := by
  have hshape : ∀ r ∈ d.shape.map Record.normal, Record.Written r :=
    forall_map_normal h.shape (congrArg EntityDecl.shape hplain) Record.Written.normal
  have htag : ∀ t ∈ d.tags.map TypeExpr.normal, t.Written :=
    forall_map_normal h.tags (congrArg EntityDecl.tags hplain) TypeExpr.Written.normal
  refine ⟨⟨List.cons_ne_nil _ _, List.forall_mem_singleton.2 (h.idents n hn), h.parents,
    fun r hr => (hshape r hr).1, fun t ht => (htag t ht).1⟩, ?_⟩
  rw [EntityDecl.plain, EntityDecl.normal, map_eq_self fun r hr => (hshape r hr).2,
    map_eq_self fun t ht => (htag t ht).2]

theorem ActionDecl.Written.normal {d : ActionDecl} (h : d.Writable) (hplain : d.plain = d)
    (n : String) : (d.normal n).Writable ∧ (d.normal n).plain = d.normal n := by
  have hwritten : ∀ a ∈ d.appliesTo.map AppliesTo.normal, a.Written :=
    forall_map_normal h.appliesTo (congrArg ActionDecl.appliesTo hplain)
      fun _ => AppliesTo.Written.normal
  refine ⟨⟨List.cons_ne_nil _ _, h.parents, fun a ha => (hwritten a ha).1⟩, ?_⟩
  rw [ActionDecl.plain, ActionDecl.normal, map_eq_self fun a ha => (hwritten a ha).2]

/-- The normal forms of a declaration that was read from text are writable, each as itself. -/
theorem Decl.Written.normals {d : Decl} (h : d.Written) : ∀ d' ∈ d.normals, d'.Written := by
  obtain ⟨⟨hbody, hannotations, -⟩, hplain⟩ := h
  have hann := writableAnnotations_normal hannotations.idents
  have hcomments : Comments.AtNode {} := ⟨comments_writable_empty, rfl⟩
  cases d with
  | entity d =>
    refine List.forall_mem_map.2 fun n hn => ?_
    obtain ⟨hw, hp⟩ := EntityDecl.Written.normal hbody (Decl.entity.inj hplain) n hn
    exact ⟨⟨hw, hann, hcomments⟩, congrArg Decl.entity hp⟩
  | enum d =>
    refine List.forall_mem_map.2 fun n hn => ?_
    have hd : d.Writable := hbody
    refine ⟨⟨⟨List.cons_ne_nil _ _, List.forall_mem_singleton.2 (hd.idents n hn), hd.values⟩, hann,
      hcomments⟩, rfl⟩
  | action d =>
    refine List.forall_mem_map.2 fun n _ => ?_
    obtain ⟨hw, hp⟩ := ActionDecl.Written.normal hbody (Decl.action.inj hplain) n
    exact ⟨⟨hw, hann, hcomments⟩, congrArg Decl.action hp⟩
  | commonType d =>
    refine List.forall_mem_singleton.2 ?_
    have hd : d.Writable := hbody
    have htype : d.type.plain = d.type := congrArg CommonTypeDecl.type (Decl.commonType.inj hplain)
    obtain ⟨hw, hp⟩ := TypeExpr.Written.normal d.type ⟨hd.type, htype⟩
    refine ⟨⟨⟨hd.ident, hd.notReserved, hw⟩, hann, hcomments⟩, ?_⟩
    rw [Decl.plain, CommonTypeDecl.plain, CommonTypeDecl.normal, hp]

/-! ## Files -/

/-- Each declaration of a normal form is the normal form of one that is written. -/
theorem exists_of_mem_normalDecls {decls : List Decl} {d' : Decl} (h : d' ∈ normalDecls decls) :
    ∃ d ∈ decls, d' ∈ d.normals := by
  have hkind {entriesOf : Decl → List (String × Decl)}
      (hentries : ∀ d, ∀ e ∈ entriesOf d, e.2 ∈ d.normals)
      (h : d' ∈ (Dict.ofList (decls.flatMap entriesOf)).values) : ∃ d ∈ decls, d' ∈ d.normals := by
    obtain ⟨e, he, rfl⟩ := List.mem_map.1 h
    obtain ⟨d, hd, he⟩ := List.mem_flatMap.1 (Dict.mem_of_mem_ofList he)
    exact ⟨d, hd, hentries d e he⟩
  have hall (d : Decl) (e : String × Decl)
      (he : e ∈ d.commonTypeEntries ++ d.entityTypeEntries ++ d.actionEntries) :
      e.2 ∈ d.normals := d.normals_eq ▸ List.mem_map_of_mem he
  simp only [normalDecls, List.mem_append] at h
  rcases h with (h | h) | h
  · exact hkind (fun d e he => hall d e (by simp [he])) h
  · exact hkind (fun d e he => hall d e (by simp [he])) h
  · exact hkind (fun d e he => hall d e (by simp [he])) h

namespace Schema

variable {s : Schema}

/-- The namespaces are those of the items. -/
theorem mem_keys_namespaces {ns : String} :
    ns ∈ s.namespaces.keys ↔ ∃ i ∈ s.items, i.namespaceName = ns := by
  have hfold (items : List Item) (d : Dict String (List Decl)) :
      ns ∈ (items.foldl (fun d item => d.append item.namespaceName item.decls) d).keys ↔
        (∃ i ∈ items, i.namespaceName = ns) ∨ ns ∈ d.keys := by
    induction items generalizing d with
    | nil => simp
    | cons i items ih =>
      rw [List.foldl_cons, ih, Dict.append, Dict.mem_keys_insert, List.exists_mem_cons_iff,
        or_assoc, or_left_comm, eq_comm]
  rw [namespaces, hfold, Dict.keys_empty]
  simp

theorem Writable.idents_annotationsOf (h : s.Writable) (ns : String) :
    ∀ a ∈ s.annotationsOf ns, Text.isIdent a.key = true := by
  intro a ha
  obtain ⟨i, hi, ha⟩ := List.mem_flatMap.1 ha
  have hi := h.items i hi
  cases i with
  | block b =>
    have hb : b.Writable := hi
    dsimp only at ha
    split at ha
    · exact hb.annotations.idents a ha
    · cases ha
  | decl d => cases ha

/-- The path of a namespace is that of the blocks it consists of. -/
theorem Writable.path_ofText (h : s.Writable) {e : String × List Decl}
    (he : e ∈ s.namespaces.entries) (hroot : e.1 ≠ "") : (Path.ofText e.1).Writable := by
  obtain ⟨i, hi, hname⟩ := mem_keys_namespaces.1 (List.mem_map_of_mem he)
  have hi := h.items i hi
  cases i with
  | block b =>
    have hb : b.Writable := hi
    have hpath : Path.ofText b.path.text = b.path := hb.path.spelled
    have hname : b.path.text = e.1 := hname
    rw [← hname, hpath]
    exact hb.path
  | decl d => exact (hroot hname.symm).elim

theorem eq_self_of_map_eq_self {α : Type} {f : α → α} {l : List α} (h : l.map f = l) :
    ∀ a ∈ l, f a = a := by
  induction l with
  | nil => exact nofun
  | cons a l ih =>
    obtain ⟨ha, hl⟩ := List.cons.inj h
    exact List.forall_mem_cons.2 ⟨ha, ih hl⟩

theorem Written.of_mem_declarations (h : s.Written) {d : Scoped Decl} (hd : d ∈ s.declarations) :
    d.decl.Written := by
  obtain ⟨hwritable, hplain⟩ := h
  obtain ⟨i, hi, hd⟩ := List.mem_flatMap.1 hd
  obtain ⟨d, hd', rfl⟩ := List.mem_map.1 hd
  have hw := hwritable.items i hi
  have hp := eq_self_of_map_eq_self (congrArg Schema.items hplain) i hi
  cases i with
  | block b =>
    have hb : b.Writable := hw
    have hdecls := congrArg NamespaceBlock.decls (Item.block.inj hp)
    exact ⟨hb.decls d hd', eq_self_of_map_eq_self hdecls d hd'⟩
  | decl d' =>
    obtain rfl := List.mem_singleton.1 hd'
    exact ⟨hw, Item.decl.inj hp⟩

/-- The normal form of a schema that was read from text is writable, as itself. -/
theorem Written.normal (h : s.Written) : s.normal.Written := by
  have hitems : ∀ i ∈ s.normal.items, i.Writable ∧ i.plain = i := by
    intro i hi
    obtain ⟨⟨ns, decls⟩, he, hi⟩ := List.mem_flatMap.1 hi
    have hdecls : ∀ d ∈ normalDecls decls, d.Written := by
      intro d' hd'
      obtain ⟨d, hd, hd'⟩ := exists_of_mem_normalDecls hd'
      have hd := h.of_mem_declarations (mem_declarations_of_namespaces he hd)
      exact hd.normals d' hd'
    dsimp only at hi
    rw [normalItems] at hi
    split at hi
    · obtain ⟨d, hd, rfl⟩ := List.mem_map.1 hi
      exact ⟨(hdecls d hd).1, congrArg Item.decl (hdecls d hd).2⟩
    · rename_i hroot
      obtain rfl := List.mem_singleton.1 hi
      have hann := writableAnnotations_normal (h.1.idents_annotationsOf ns)
      refine ⟨⟨h.1.path_ofText he hroot, fun d hd => (hdecls d hd).1, hann,
        comments_writable_empty⟩, ?_⟩
      have hplain := map_eq_self_of_mem fun d hd => (hdecls d hd).2
      rw [Item.plain, NamespaceBlock.plain, hplain]
  refine ⟨⟨fun i hi => (hitems i hi).1, List.forall_mem_nil _⟩, ?_⟩
  rw [Schema.plain, map_eq_self_of_mem fun i hi => (hitems i hi).2]

end Schema

end CedarSchema
