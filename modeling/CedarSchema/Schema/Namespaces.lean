import CedarSchema.Dict
import CedarSchema.Schema

/-
  The declarations of a schema by namespace. Blocks with the same path are one namespace, and the
  declarations outside of blocks are the root namespace, whose name is empty.
-/

namespace CedarSchema

namespace Item

/-- The namespace that an item adds to. -/
def namespaceName : Item → String
  | block b => b.path.text
  | decl _ => ""

/-- The declarations of an item. -/
def decls : Item → List Decl
  | block b => b.decls
  | decl d => [d]

end Item

/-- Appends to the list under a key. -/
def Dict.append {κ α : Type} [Ord κ] [Std.TransOrd κ] [Std.LawfulEqOrd κ] (d : Dict κ (List α))
    (k : κ) (items : List α) : Dict κ (List α) :=
  d.insert k ((d.find? k).getD [] ++ items)

/-- The declarations of each namespace, in the order they stand in the file. -/
def Schema.namespaces (s : Schema) : Dict String (List Decl) :=
  s.items.foldl (fun d item => d.append item.namespaceName item.decls) .empty

/-- Something declared, with the namespace it is declared in. -/
structure Scoped (α : Type) where
  ns : String
  decl : α

/-- All declarations, namespace by namespace in the order of their names. -/
def Schema.scopedDecls (s : Schema) : List (Scoped Decl) :=
  s.namespaces.entries.flatMap fun (ns, decls) => decls.map (Scoped.mk ns)

end CedarSchema
