import CedarSchema.Proofs.Resolve.Retelling

/-
  The order and the grouping of declarations. The items of a file and the declarations of a block
  may change places, a block may be split into blocks of the same path, and a declaration of several
  names into declarations of the same body (`Rearranges`). No such step changes what is declared
  under each name, nor which bodies are written (`Alike`). Schemas that are alike retell each other,
  so a schema resolves to what any rearrangement of it resolves to (`resolve_eq_of_rearranges`).
-/

namespace CedarSchema

open SymbolTable

/-! ## Rearranging -/

namespace Decl

/-- The declaration under other names and without comments. A common type has one name, which it
keeps. -/
def named (names : List String) : Decl → Decl
  | entity d => .entity { d with names, comments := {} }
  | enum d => .enum { d with names, comments := {} }
  | action d => .action { d with names, comments := {} }
  | commonType d => .commonType { d with comments := {} }

/-- The declarations share the names of one between them, and its body each of them has. -/
structure SplitsInto (d : Decl) (ds : List Decl) : Prop where
  nonempty : ds ≠ []
  names : ds.flatMap Decl.names = d.names
  bodies : ∀ d' ∈ ds, d'.named [] = d.named []

end Decl

/-- One step of rearranging the items of a file. The item or declaration that is split stands first;
permutations bring it there and back. Comments may change on the way, annotations of blocks too. -/
inductive Rearranges : List Item → List Item → Prop
  | permute {items items' : List Item} (h : items.Perm items') : Rearranges items items'
  | permuteDecls {b : NamespaceBlock} {decls : List Decl} (h : b.decls.Perm decls)
      (rest : List Item) : Rearranges (.block b :: rest) (.block { b with decls } :: rest)
  | splitBlock {b : NamespaceBlock} {blocks : List NamespaceBlock}
      (hpath : ∀ b' ∈ blocks, b'.path = b.path)
      (hdecls : blocks.flatMap NamespaceBlock.decls = b.decls) (rest : List Item) :
    Rearranges (.block b :: rest) (blocks.map .block ++ rest)
  | splitDecl {d : Decl} {decls : List Decl} (h : d.SplitsInto decls) (rest : List Item) :
    Rearranges (.decl d :: rest) (decls.map .decl ++ rest)
  | splitInBlock {b : NamespaceBlock} {d : Decl} {decls others : List Decl}
      (h : d.SplitsInto decls) (hb : b.decls = d :: others) (rest : List Item) :
    Rearranges (.block b :: rest) (.block { b with decls := decls ++ others } :: rest)

/-! ## What rearranging keeps -/

theorem Decl.named_named (names names' : List String) (d : Decl) :
    (d.named names').named names = d.named names := by
  cases d <;> rfl

theorem Decl.named_eq {d d' : Decl} {names names' : List String}
    (h : d'.named names' = d.named names) (l : List String) : d'.named l = d.named l := by
  rw [← d'.named_named l names', h, d.named_named]

/-- Under one name of each, declarations are equal only if the name is the same. -/
theorem Decl.eq_of_named_eq {d d' : Decl} {n n' : String} (hn : n ∈ d.names) (hn' : n' ∈ d'.names)
    (h : d'.named [n'] = d.named [n]) : n' = n := by
  cases d <;> cases d' <;> simp_all [Decl.named, Decl.names]

namespace Scoped

/-- What a declaration declares under each of its names. -/
def pieces (d : Scoped Decl) : List (Scoped Decl) :=
  d.decl.names.map fun n => ⟨d.ns, d.decl.named [n]⟩

def body (d : Scoped Decl) : Scoped Decl := ⟨d.ns, d.decl.named []⟩

end Scoped

/-- The same is declared under each name, and as often, and the same bodies are written. -/
structure Alike (ds ds' : List (Scoped Decl)) : Prop where
  pieces : (ds.flatMap Scoped.pieces).Perm (ds'.flatMap Scoped.pieces)
  bodies : ∀ b, b ∈ ds.map Scoped.body ↔ b ∈ ds'.map Scoped.body

namespace Alike

variable {ds ds' es : List (Scoped Decl)}

theorem of_perm (h : ds.Perm ds') : Alike ds ds' :=
  ⟨h.flatMap_right _, fun _ => (h.map _).mem_iff⟩

theorem refl (ds : List (Scoped Decl)) : Alike ds ds := of_perm (.refl ds)

theorem symm (h : Alike ds ds') : Alike ds' ds := ⟨h.pieces.symm, fun b => (h.bodies b).symm⟩

theorem trans (h : Alike ds ds') (h' : Alike ds' es) : Alike ds es :=
  ⟨h.pieces.trans h'.pieces, fun b => (h.bodies b).trans (h'.bodies b)⟩

theorem append_right (h : Alike ds ds') (es : List (Scoped Decl)) :
    Alike (ds ++ es) (ds' ++ es) := by
  constructor
  · rw [List.flatMap_append, List.flatMap_append]
    exact h.pieces.append_right _
  · intro b
    rw [List.map_append, List.map_append, List.mem_append, List.mem_append, h.bodies]

/-- A declaration is like the declarations that it splits into. -/
theorem of_splitsInto {d : Decl} {decls : List Decl} (h : d.SplitsInto decls) (ns : String) :
    Alike [⟨ns, d⟩] (decls.map (Scoped.mk ns)) := by
  have hnamed (d' : Decl) (hd' : d' ∈ decls) (names : List String) :
      d'.named names = d.named names := Decl.named_eq (h.bodies d' hd') names
  constructor
  · refine .of_eq ?_
    have hpieces : d.names.map (fun n => Scoped.mk ns (d.named [n])) =
        decls.flatMap fun d' => d'.names.map fun n => ⟨ns, d'.named [n]⟩ := by
      rw [← h.names, List.map_flatMap]
      refine List.flatMap_congr fun d' hd' => List.map_congr_left fun n _ => ?_
      rw [hnamed d' hd']
    rw [List.flatMap_singleton, List.flatMap_map]
    exact hpieces
  · intro b
    simp only [List.map_cons, List.map_nil, List.mem_singleton, List.map_map, List.mem_map,
      Function.comp_apply, Scoped.body]
    constructor
    · rintro rfl
      obtain ⟨d', hd'⟩ := List.exists_mem_of_ne_nil _ h.nonempty
      exact ⟨d', hd', by rw [hnamed d' hd']⟩
    · rintro ⟨d', hd', rfl⟩
      rw [hnamed d' hd']

end Alike

def Item.declarations (i : Item) : List (Scoped Decl) := i.decls.map (Scoped.mk i.namespaceName)

/-- A step of rearranging keeps what is declared. -/
theorem Rearranges.alike {items items' : List Item} (h : Rearranges items items') :
    Alike (items.flatMap Item.declarations) (items'.flatMap Item.declarations) := by
  cases h with
  | permute h => exact .of_perm (h.flatMap_right _)
  | permuteDecls h rest =>
    rw [List.flatMap_cons, List.flatMap_cons]
    exact (Alike.of_perm (h.map _)).append_right _
  | @splitBlock b blocks hpath hdecls rest =>
    have hblocks : (blocks.map Item.block).flatMap Item.declarations =
        (Item.block b).declarations := by
      show _ = b.decls.map (Scoped.mk b.path.text)
      rw [← hdecls, List.flatMap_map, List.map_flatMap]
      refine List.flatMap_congr fun b' hb' => ?_
      rw [← hpath b' hb']
      rfl
    rw [List.flatMap_cons, List.flatMap_append, hblocks]
    exact .refl _
  | @splitDecl d decls h rest =>
    have hdecls : (decls.map Item.decl).flatMap Item.declarations = decls.map (Scoped.mk "") := by
      rw [List.flatMap_map]
      exact List.map_eq_flatMap.symm
    rw [List.flatMap_cons, List.flatMap_append, hdecls]
    exact (Alike.of_splitsInto h "").append_right _
  | @splitInBlock b d decls others h hb rest =>
    rw [List.flatMap_cons, List.flatMap_cons]
    refine Alike.append_right ?_ _
    show Alike (b.decls.map (Scoped.mk b.path.text)) ((decls ++ others).map (Scoped.mk b.path.text))
    rw [hb, List.map_append]
    exact (Alike.of_splitsInto h b.path.text).append_right _

theorem alike_of_eqvGen {items items' : List Item} (h : Relation.EqvGen Rearranges items items') :
    Alike (items.flatMap Item.declarations) (items'.flatMap Item.declarations) := by
  induction h with
  | rel _ _ h => exact h.alike
  | refl items => exact .refl _
  | symm _ _ _ ih => exact ih.symm
  | trans _ _ _ _ _ ih ih' => exact ih.trans ih'

/-! ## Schemas that are alike -/

namespace SymbolTable

variable {t t' : SymbolTable} {ns : String}

mutual

/-- Where references find the same, every type says what it said. -/
theorem SameNames.retells (h : t.SameNames t') : (type : TypeExpr) → t.Retells t' ns type type
  | .path p => .path fun _ hb => (h.lookupType_eq ns p).trans hb
  | .entity p => .entity fun _ hname => (h.lookupEntityType_eq ns p).trans hname
  | .set element => .set (h.retells element)
  | .record r => .record (h.retellsRecord r)
termination_by structural type => type

theorem SameNames.retellsRecord (h : t.SameNames t') :
    (r : Record TypeExpr) → t.RetellsRecord t' ns r r
  | ⟨attributes, _⟩ => .mk (h.retellsAll attributes)
termination_by structural r => r

theorem SameNames.retellsAll (h : t.SameNames t') : (attributes : List (Attribute TypeExpr)) →
    t.RetellsAll t' ns attributes attributes
  | [] => .nil
  | ⟨_, type, _, _, _⟩ :: rest => .cons (h.retells type) (h.retellsAll rest)
termination_by structural attributes => attributes

end

variable (h : t.SameNames t')

include h

theorem SameNames.retellsAppliesTo (a : AppliesTo) : t.RetellsAppliesTo t' ns a a where
  principals := h.retellsRefs _
  resources := h.retellsRefs _
  context := rel_refl fun type _ => h.retells type

/-- A declaration of the same body says the same. -/
theorem SameNames.retellsDecl {d d' : Decl} (hd : d'.named [] = d.named []) :
    t.RetellsDecl t' ns d d' := by
  rcases d with ⟨⟨⟩⟩ | ⟨⟨⟩⟩ | ⟨⟨⟩⟩ | ⟨⟨⟩⟩ <;> rcases d' with ⟨⟨⟩⟩ | ⟨⟨⟩⟩ | ⟨⟨⟩⟩ | ⟨⟨⟩⟩ <;> cases hd
  · exact .entity ⟨rfl, h.retellsRefs _, rel_refl fun r _ => h.retellsRecord r,
      rel_refl fun type _ => h.retells type⟩
  · exact .enum rfl rfl
  · exact .action ⟨rfl, rfl, rel_refl fun a _ => h.retellsAppliesTo a⟩
  · exact .commonType rfl (h.retells _)

end SymbolTable

namespace Alike

variable {ds ds' : List (Scoped Decl)} (h : Alike ds ds')

include h

/-- What is read off the names of declarations is the same. -/
theorem flatMap_perm {α : Type} {f : Scoped Decl → List α}
    (hf : ∀ d : Scoped Decl, d.pieces.flatMap f = f d) : (ds.flatMap f).Perm (ds'.flatMap f) := by
  rw [← flatMap_flatMap_eq hf ds, ← flatMap_flatMap_eq hf ds']
  exact h.pieces.flatMap_right f

theorem exists_of_mem {ns n : String} {d : Decl} (hd : ⟨ns, d⟩ ∈ ds) (hn : n ∈ d.names) :
    ∃ d', ⟨ns, d'⟩ ∈ ds' ∧ n ∈ d'.names ∧ d'.named [] = d.named [] := by
  have hpiece : ⟨ns, d.named [n]⟩ ∈ ds.flatMap Scoped.pieces :=
    List.mem_flatMap.2 ⟨_, hd, List.mem_map.2 ⟨n, hn, rfl⟩⟩
  obtain ⟨⟨ns', d'⟩, hd', hpiece⟩ := List.mem_flatMap.1 (h.pieces.mem_iff.1 hpiece)
  obtain ⟨n', hn', heq⟩ := List.mem_map.1 hpiece
  obtain ⟨rfl, hnamed⟩ := Scoped.mk.inj heq
  obtain rfl := Decl.eq_of_named_eq hn hn' hnamed
  exact ⟨d', hd', hn', Decl.named_eq hnamed []⟩

theorem exists_body {ns : String} {d : Decl} (hd : ⟨ns, d⟩ ∈ ds) :
    ∃ d', ⟨ns, d'⟩ ∈ ds' ∧ d'.named [] = d.named [] := by
  obtain ⟨⟨ns', d'⟩, hd', heq⟩ := List.mem_map.1 ((h.bodies _).1 (List.mem_map_of_mem hd))
  obtain ⟨rfl, hnamed⟩ := Scoped.mk.inj heq
  exact ⟨d', hd', hnamed⟩

end Alike

namespace Schema

variable {s s' : Schema} (h : Alike s.declarations s'.declarations)

include h

theorem entityTypeNames_perm : s.entityTypeNames.Perm s'.entityTypeNames := by
  refine h.flatMap_perm fun ⟨ns, d⟩ => ?_
  cases d <;>
    simp [Scoped.pieces, Decl.names, Decl.named, Scoped.entityTypeNames, Scoped.entityNames,
      Scoped.enumNames, List.flatMap_map, ← List.map_eq_flatMap]

theorem actionUids_perm : s.actionUids.Perm s'.actionUids := by
  refine h.flatMap_perm fun ⟨ns, d⟩ => ?_
  cases d <;>
    simp [Scoped.pieces, Decl.names, Decl.named, Scoped.actionUids, List.flatMap_map,
      ← List.map_eq_flatMap]

theorem commonTypeNames_perm : s.commonTypeNames.Perm s'.commonTypeNames := by
  unfold commonTypeNames
  rw [List.map_flatMap, List.map_flatMap]
  refine h.flatMap_perm fun ⟨ns, d⟩ => ?_
  cases d <;> simp [Scoped.pieces, Decl.names, Decl.named, Scoped.commonTypes, List.flatMap_map]

theorem sameNames_of_alike : s.table.SameNames s'.table :=
  sameNames_of_perm (entityTypeNames_perm h) (commonTypeNames_perm h)

theorem distinct_of_alike (hs : s.table.Distinct) : s'.table.Distinct := by
  obtain ⟨hcommon, hreserved, hentity, haction⟩ := distinct_table_iff.1 hs
  refine distinct_table_iff.2 ⟨(commonTypeNames_perm h).nodup_iff.1 hcommon, fun ns c hc => ?_,
    (entityTypeNames_perm h).nodup_iff.1 hentity, (actionUids_perm h).nodup_iff.1 haction⟩
  obtain ⟨d, hd, hnamed⟩ := h.symm.exists_body hc
  cases d with
  | commonType d =>
    have hname : d.name = c.name := by
      simpa [Decl.named, Decl.names] using congrArg Decl.names hnamed
    exact hname ▸ hreserved ns d hd
  | _ => cases hnamed

theorem retells_of_alike (hs : s.table.Distinct) : s.Retells s' := by
  have hnames := sameNames_of_alike h
  refine ⟨distinct_of_alike h hs, fun ns d n hd hn => ?_, fun ns d' n hd' hn => ?_,
    fun ns d' hd' => ?_⟩
  · obtain ⟨d', hd', hn', hnamed⟩ := h.exists_of_mem hd hn
    exact ⟨d', hd', hn', hnames.retellsDecl hnamed⟩
  · obtain ⟨d, hd, hn, hnamed⟩ := h.symm.exists_of_mem hd' hn
    exact ⟨d, hd, hn, hnames.retellsDecl hnamed.symm⟩
  · obtain ⟨d, hd, hnamed⟩ := h.symm.exists_body hd'
    exact ⟨d, hd, hnames.retellsDecl hnamed.symm⟩

theorem resolve_of_alike {r : ResolvedSchema} (hr : s.resolve = .ok r) : s'.resolve = .ok r := by
  have hs := ((resolve_eq_ok_iff s r).1 hr).distinct
  exact (retells_of_alike h hs).resolve_eq hr

end Schema

/-! ## The order and the grouping of declarations -/

namespace Schema

/-- However its declarations are ordered and grouped, a schema resolves to the same. -/
theorem resolve_eq_of_rearranges {s s' : Schema}
    (h : Relation.EqvGen Rearranges s.items s'.items) (r : ResolvedSchema) :
    s.resolve = .ok r ↔ s'.resolve = .ok r := by
  have halike : Alike s.declarations s'.declarations := alike_of_eqvGen h
  exact ⟨resolve_of_alike halike, resolve_of_alike halike.symm⟩

/-- The schema `follows` with a block for each of its declarations, users and admins apart. -/
def followsApart : Schema where
  items := [
    .block {
      path := ⟨["Social"]⟩
      decls := [
        .action {
          names := ["follow"]
          parents := [{ id := "read" }]
          appliesTo := some {
            principals := some [⟨["User"]⟩]
            resources := some [⟨["Admin"]⟩]
            context := some (.record {
              attributes := [{ name := "by", type := .path ⟨["Social", "User"]⟩ }] }) } }] },
    .block {
      path := ⟨["Social"]⟩
      decls := [
        .entity {
          names := ["User"]
          parents := [⟨["Social", "User"]⟩]
          shape := some { attributes := [{ name := "follows", type := .path ⟨["People"]⟩ }] } },
        .entity {
          names := ["Admin"]
          parents := [⟨["Social", "User"]⟩]
          shape := some { attributes := [{ name := "follows", type := .path ⟨["People"]⟩ }] } }] },
    .block {
      path := ⟨["Social"]⟩
      decls := [
        .commonType { name := "People", type := .set (.path ⟨["User"]⟩) },
        .action { names := ["read"] }] }]

/-- Users go before people in the first block, then from each other, then from people. -/
theorem follows_rearranges : Relation.EqvGen Rearranges follows.items followsApart.items := by
  refine .trans _ _ _ (.rel _ _ (.permuteDecls (List.Perm.swap _ _ _) _)) ?_
  refine .trans _ _ _
    (.rel _ _ (@Rearranges.splitInBlock _ _ followsApart.items[1].decls _ ?_ rfl _)) ?_
  · exact ⟨List.cons_ne_nil _ _, rfl, by simp [followsApart, Item.decls, Decl.named]⟩
  refine .trans _ _ _ (.rel _ _ (@Rearranges.splitBlock _ [
    ⟨⟨["Social"]⟩, followsApart.items[1].decls, [], {}⟩,
    ⟨⟨["Social"]⟩, followsApart.items[2].decls, [], {}⟩] (by simp) rfl _)) ?_
  exact .rel _ _ (.permute (@List.perm_append_comm _ [_, _] [_]))

theorem resolve_eq_of_rearranges_follows :
    ∃ r, follows.resolve = .ok r ∧ followsApart.resolve = .ok r := by
  obtain ⟨r, hr⟩ := exists_resolve_follows
  exact ⟨r, hr, (resolve_eq_of_rearranges follows_rearranges r).1 hr⟩

end Schema

end CedarSchema
