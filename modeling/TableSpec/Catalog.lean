import TableSpec.Namespace
import TableSpec.Path

/-!
# `TableSpec.Catalog` — all namespaces

## Contents
- `Catalog` with `namespace?`, `table?`, `tables`, `tablesForSystem`, `tableCount`.
- `Catalog.record`: put in the table of a file, in the namespace of the file's directory.
- `Catalog.inject`: take over namespaces from a document, filling in the keys that it leaves out.
-/

namespace TableSpec

/-- Namespaces under their keys. -/
structure Catalog where
  namespaces : KeyMap Namespace := .empty
  deriving DecidableEq, Inhabited

/-- A table with the namespace that it is in. -/
structure OwnedTable where
  owner : Namespace
  table : Table
  deriving DecidableEq, Inhabited

/-- The tables of a namespace, each with it. -/
def Namespace.owned (ns : Namespace) : List OwnedTable := ns.tables.values.map (fun t => ⟨ns, t⟩)

namespace Catalog

/-- The catalog without namespaces. -/
def empty : Catalog := {}

/-- The namespace with a key. -/
def namespace? (c : Catalog) (key : String) : Option Namespace := c.namespaces.get? key

/-- The namespace that a table says it is in. -/
def ownerOf? (c : Catalog) (t : Table) : Option Namespace := c.namespace? t.namespaceId

/-- The table with a name in the namespace with a key. -/
def table? (c : Catalog) (key name : String) : Option OwnedTable := do
  let ns ← c.namespace? key
  let t ← ns.table? name
  return ⟨ns, t⟩

/-- All tables, in the order of namespaces and then of names. -/
def tables (c : Catalog) : List OwnedTable := c.namespaces.values.flatMap Namespace.owned

/-- The tables that apply to an operating system, in the order of the directories that apply to it. -/
def tablesForSystem (c : Catalog) (system : String) : Except Error (List OwnedTable) := do
  let directories ← Platform.directoriesFor system
  return directories.flatMap (fun d => ((c.namespace? d).map Namespace.owned).getD [])

/-- How many tables there are. -/
def tableCount (c : Catalog) : Nat := c.namespaces.values.foldr (fun ns n => ns.size + n) 0

/-- Whether there are no namespaces. -/
def isEmpty (c : Catalog) : Bool := c.namespaces.isEmpty

/-! ## Recording -/

/-- The key of the namespace for the file at a path: the name of the directory that the file is in. -/
def keyOf (path : String) : String := (Path.directoryName? path).getD ""

/-- Put in the table of the file at `path`. Its namespace is that of the directory of the file, which has
    to be a known one when the catalog does not have the namespace yet. -/
def record (c : Catalog) (path : String) (t : Table) : Except Error Catalog :=
  let key := keyOf path
  let owner : Except Error Namespace := match c.namespace? key with
    | some ns => .ok ns
    | none => (Namespace.ofDirectory key).mapError (Error.within path)
  owner.map (fun ns => ⟨c.namespaces.insert key (ns.insert t)⟩)

/-! ## Taking over documents -/

/-- The text, or another one where it is empty. -/
def orElse (text other : String) : String := if text.isEmpty then other else text

/-- A table of a document, with the keys that it leaves out taken from its place. -/
def completeTable (key name : String) (t : Table) : Table :=
  { t with namespaceId := orElse t.namespaceId key, name := orElse t.name name }

/-- A namespace of a document, with the keys that it leaves out taken from its place. -/
def completeNamespace (key : String) (ns : Namespace) : Namespace :=
  { ns with key := orElse ns.key key, tables := ns.tables.mapValues (completeTable key) }

/-- Take over the namespaces of a document; a namespace with the same key is replaced. -/
def inject (c : Catalog) (document : KeyMap Namespace) : Catalog :=
  ⟨document.entries.foldl (fun m e => m.insert e.1 (completeNamespace e.1 e.2)) c.namespaces⟩

end Catalog
end TableSpec
