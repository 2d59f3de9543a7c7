import TableSpec.Catalog
import TableSpec.Sql.Engine

/-!
# `TableSpec.Database` — the tables that are served

First tables are registered, in a manifest that holds their columns. Then the manifest is locked and the
engine gets a table for every entry; from then on the database answers queries.

## Contents
- `Database`, `addTable`, `isInitialized`.
- `createStatement`: the statement that creates a registered table.
- `start`: lock the manifest. `ofCatalog`: the database for an operating system.
- `query`, `schema?`, `tableNames`.
-/

namespace TableSpec

/-- A database: its manifest, and the engine once the manifest is locked. -/
structure Database where
  name : String := "osquery"
  /-- The columns of the registered tables. -/
  manifest : KeyMap (List ServedColumn) := .empty
  engine : Option Sql.Engine := none
  deriving DecidableEq, Inhabited

namespace Database

/-- Whether the manifest is locked. -/
def isInitialized (db : Database) : Bool := db.engine.isSome

/-- Register a table with its columns for a list of platforms. A table of the same name is replaced; a table
    without columns is left out, and an earlier one of its name with it. -/
def addTable (db : Database) (t : Table) (platforms : List String) : Except Error Database :=
  if db.isInitialized then .error .databaseLocked
  else do
    let columns ← t.servedColumns platforms
    if columns.isEmpty then return { db with manifest := db.manifest.erase t.name }
    else return { db with manifest := db.manifest.insert t.name columns }

/-! ## Creation -/

/-- The columns without later ones of the same name. -/
def keepFirst (seen : List String) : List ServedColumn → List ServedColumn
  | [] => []
  | c :: rest =>
    if seen.contains c.name then keepFirst seen rest else c :: keepFirst (c.name :: seen) rest

/-- The definition of a column in the engine. -/
def columnDef (c : ServedColumn) : Sql.ColumnDef := ⟨c.name, c.engineType.declaration, c.nullable⟩

/-- The statement that creates a registered table. Of columns with the same name the first is kept. -/
def createStatement (name : String) (columns : List ServedColumn) : Sql.Statement :=
  .createTable name ((keepFirst [] columns).map columnDef)

/-- The engine with a table for every entry of a manifest. -/
def createAll (manifest : KeyMap (List ServedColumn)) : Except Error Sql.Engine :=
  manifest.entries.foldlM (fun e entry => e.execute (createStatement entry.1 entry.2).text) {}

/-- Lock the manifest and create its tables. -/
def start (db : Database) : Except Error Database :=
  if db.isInitialized then .error .databaseLocked
  else (createAll db.manifest).map (fun e => { db with engine := some e })

/-- Register tables for an operating system. An error names the table that it comes from. -/
def addOwned (system : String) (db : Database) (t : OwnedTable) : Except Error Database :=
  (db.addTable t.table [system]).mapError (Error.within (t.owner.key ++ "/" ++ t.table.name))

/-- The database of the tables that apply to an operating system. -/
def ofCatalog (c : Catalog) (system : String) : Except Error Database := do
  let tables ← c.tablesForSystem system
  let db ← tables.foldlM (addOwned system) {}
  db.start

/-! ## Questions -/

/-- The names of the registered tables, in order. -/
def tableNames (db : Database) : List String := db.manifest.keys

/-- The columns of a registered table. -/
def schema? (db : Database) (table : String) : Option (List ServedColumn) := db.manifest.get? table

/-- What a query answers. -/
def query (db : Database) (sql : String) : Except Error Sql.Answer :=
  match db.engine with
  | some e => e.query sql
  | none => .error .databaseNotReady

end Database
end TableSpec
