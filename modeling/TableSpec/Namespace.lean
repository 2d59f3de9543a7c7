import TableSpec.Table

/-!
# `TableSpec.Namespace` — the tables of one directory

## Contents
- `Namespace`, `Namespace.ofDirectory`: the empty namespace of a known directory.
- `Namespace.insert`: put a table in, under its own name.
-/

namespace TableSpec

/-- The tables that the files of one directory declare, under their names. -/
structure Namespace where
  /-- The name of the directory. -/
  key : String := ""
  /-- What the directory is for. -/
  name : String := ""
  tables : KeyMap Table := .empty
  deriving DecidableEq, Inhabited

namespace Namespace

/-- The namespace of a directory, without tables. -/
def ofDirectory (directory : String) : Except Error Namespace :=
  (Platform.describe directory).map (fun name => { key := directory, name := name })

/-- A table as a member of this namespace. -/
def adopt (ns : Namespace) (t : Table) : Table := { t with namespaceId := ns.key }

/-- Put a table in under its name; a table of that name is replaced. -/
def insert (ns : Namespace) (t : Table) : Namespace :=
  { ns with tables := ns.tables.insert t.name (ns.adopt t) }

/-- The table with a name. -/
def table? (ns : Namespace) (name : String) : Option Table := ns.tables.get? name

/-- How many tables there are. -/
def size (ns : Namespace) : Nat := ns.tables.size

/-- Whether there are no tables. -/
def isEmpty (ns : Namespace) : Bool := ns.tables.isEmpty

@[simp] theorem table?_insert (ns : Namespace) (t : Table) (name : String) :
    (ns.insert t).table? name = if name = t.name then some (ns.adopt t) else ns.table? name :=
  KeyMap.get?_insert ns.tables t.name name (ns.adopt t)

end Namespace
end TableSpec
