import TableSpec.Schema

/-!
# `TableSpec.Table` — tables

A table is what one specification file declares. It knows its namespace only by key.

## Contents
- `Table`, `SchemaPlace`, `Table.schemas`: the schemas of a table with their places.
- `Table.servedColumns`: the columns that the relational engine gets for a list of platforms.
-/

namespace TableSpec

/-- What one specification file declares. -/
structure Table where
  /-- The key of the namespace that the table is in. -/
  namespaceId : String := ""
  name : String := ""
  aliases : List String := []
  description : String := ""
  schema : Option Schema := none
  attributes : KeyMap Scalar := .empty
  implementation : String := ""
  fuzzPaths : List String := []
  /-- Extended schemas under the platforms that they are registered for. -/
  extendedSchemas : KeyMap Schema := .empty
  examples : List String := []
  deriving DecidableEq, Inhabited

/-- The place of a schema in its table. -/
inductive SchemaPlace where
  | base
  | extended (platform : String)
  deriving DecidableEq, Repr, Inhabited

namespace Table

/-- The schemas of a table: the base schema, then the extended ones in the order of their platforms. -/
def schemas (t : Table) : List (SchemaPlace × Schema) :=
  t.schema.toList.map (fun s => (.base, s)) ++
    t.extendedSchemas.entries.map (fun e => (.extended e.1, e.2))

/-- How many columns the base schema has. -/
def columnCount (t : Table) : Nat := (t.schema.map (fun s => s.columns.length)).getD 0

/-- The columns of a table for a list of platforms: those of the base schema, then for each platform in
    turn those of the extended schema registered for it. -/
def columnsFor (t : Table) (platforms : List String) : List Column :=
  (t.schema.map Schema.columns).getD [] ++
    platforms.flatMap (fun p => ((t.extendedSchemas.get? p).map Schema.columns).getD [])

/-- The descriptors of a table's columns for a list of platforms. The first unknown type is an error. -/
def servedColumns (t : Table) (platforms : List String) : Except Error (List ServedColumn) :=
  (t.columnsFor platforms).mapM (Column.served t.name)

end Table
end TableSpec
