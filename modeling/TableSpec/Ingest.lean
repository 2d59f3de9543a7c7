import TableSpec.Extraction
import TableSpec.Files
import TableSpec.Ingest.Pipeline

/-!
# `TableSpec.Ingest` — the tables of a directory

## Contents
- `Ingest.Options`.
- `Ingest.file`: the table of one file.
- `Ingest.walk`: the specification files below a directory.
- `Ingest.directory`: the catalog of a directory.
-/

namespace TableSpec
namespace Ingest

/-- What can be chosen about taking in a directory. -/
structure Options where
  /-- The extension of specification files. -/
  extension : String := "table"
  /-- How many workers there are. -/
  workers : Nat := 4
  /-- How much the queues between the threads hold. -/
  capacity : Nat := 1000
  deriving Repr, Inhabited

/-- The table of a file. It is called like the file unless it says otherwise. -/
def file (files : Files) (path : String) : Except Error Table :=
  ((files.readText path).bind (Table.ofSource ((Path.stem? path).getD "") path)).mapError
    (Error.within path)

/-- The specification files at or below a path. -/
def walk (files : Files) (extension root : String) : List (Except Error String) :=
  match files.entry? root with
  | none => [.error .walk]
  | some (.file _) => if Path.extension? root = some extension then [.ok root] else []
  | some .directory =>
    let found := (files.place? root).elim [] files.below
    (found.filter (fun rest => Path.extension? rest = some extension)).map (fun rest => .ok (Path.join root rest))

/-- The catalog of the specification files below a directory. -/
def directory (options : Options) (files : Files) (root : String) : Except Error Catalog :=
  let start := Pipeline.start (walk files options.extension root) options.workers
  ((start.run (max options.capacity 1) (file files)).outcome).getD (.error .walk)

end Ingest
end TableSpec
