import TableSpec.Catalog
import TableSpec.Document

/-!
# `TableSpec.Document.Model` — catalogs and their parts in documents

## Contents
- `Column.fields`, `Schema.fields`, `Table.fields`, `Namespace.fields`: the fields in order.
- `Column.ofDocument`, `Column.toDocument` and so on.
- `Catalog.ofDocument`, `Catalog.toDocument`: a catalog is the map of its namespaces.
-/

namespace TableSpec

open Document

variable {δ : Type} [Document δ]

/-! ## Columns -/

namespace Column

/-- The fields of a column. The index is always written. -/
def fields : List (Field δ Column) :=
  [.count "index" index (fun n c => { c with index := n }),
   .text "name" name (fun s c => { c with name := s }),
   .text "type" typeName (fun s c => { c with typeName := s }),
   .text "description" description (fun s c => { c with description := s }),
   .list "aliases" text ofText aliases (fun xs c => { c with aliases := xs }),
   .map "options" scalar ofScalar options (fun m c => { c with options := m })]

/-- The column of a document. -/
def ofDocument (d : δ) : Except Error Column := readRecord fields ["index"] {} d

/-- The document of a column. -/
def toDocument (c : Column) : δ := writeRecord fields c

end Column

/-! ## Schemas -/

namespace Schema

/-- The fields of a schema. -/
def fields : List (Field δ Schema) :=
  [.names "platforms" platforms (fun xs s => { s with platforms := xs }),
   .flag "extended" extended (fun b s => { s with extended := b }),
   .list "columns" Column.ofDocument Column.toDocument columns (fun xs s => { s with columns := xs }),
   .list "foreign_keys" (readMap scalar) (writeMap ofScalar) foreignKeys
     (fun xs s => { s with foreignKeys := xs })]

/-- The schema of a document. -/
def ofDocument (d : δ) : Except Error Schema := readRecord fields [] {} d

/-- The document of a schema. -/
def toDocument (s : Schema) : δ := writeRecord fields s

end Schema

/-! ## Tables -/

namespace Table

/-- The fields of a table. -/
def fields : List (Field δ Table) :=
  [.text "namespace_id" namespaceId (fun s t => { t with namespaceId := s }),
   .text "name" name (fun s t => { t with name := s }),
   .list "aliases" text ofText aliases (fun xs t => { t with aliases := xs }),
   .text "description" description (fun s t => { t with description := s }),
   .option "schema" Schema.ofDocument Schema.toDocument schema (fun o t => { t with schema := o }),
   .map "attributes" scalar ofScalar attributes (fun m t => { t with attributes := m }),
   .text "implementation" implementation (fun s t => { t with implementation := s }),
   .list "fuzz_paths" text ofText fuzzPaths (fun xs t => { t with fuzzPaths := xs }),
   .map "extended_schemas" Schema.ofDocument Schema.toDocument extendedSchemas
     (fun m t => { t with extendedSchemas := m }),
   .list "examples" text ofText examples (fun xs t => { t with examples := xs })]

/-- The table of a document. -/
def ofDocument (d : δ) : Except Error Table := readRecord fields [] {} d

/-- The document of a table. -/
def toDocument (t : Table) : δ := writeRecord fields t

end Table

/-! ## Namespaces and catalogs -/

namespace Namespace

/-- The fields of a namespace. -/
def fields : List (Field δ Namespace) :=
  [.text "key" key (fun s ns => { ns with key := s }),
   .text "name" name (fun s ns => { ns with name := s }),
   .map "tables" Table.ofDocument Table.toDocument tables (fun m ns => { ns with tables := m })]

/-- The namespace of a document. -/
def ofDocument (d : δ) : Except Error Namespace := readRecord fields [] {} d

/-- The document of a namespace. -/
def toDocument (ns : Namespace) : δ := writeRecord fields ns

end Namespace

/-- The catalog of a document: keys that the document leaves out are taken from their places. -/
def Catalog.ofDocument (d : δ) : Except Error Catalog :=
  (readMap Namespace.ofDocument d).map Catalog.empty.inject

/-- The document of a catalog. -/
def Catalog.toDocument (c : Catalog) : δ := writeMap Namespace.toDocument c.namespaces

end TableSpec
