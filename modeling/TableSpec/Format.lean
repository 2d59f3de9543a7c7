import TableSpec.Files
import TableSpec.Json.Model
import TableSpec.Yaml.Model

/-!
# `TableSpec.Format` — the formats that catalogs are exchanged in

## Contents
- `Format`, `Format.word`, `Format.ofExtension?`.
- `Catalog.print`, `Catalog.parse`: catalogs in a format.
- `Catalog.load`: the catalog in a file, whose extension tells the format.
-/

namespace TableSpec

/-- A format of documents. -/
inductive Format where
  | json
  | yaml
  deriving DecidableEq, Repr, Inhabited

namespace Format

/-- The word for a format. -/
def word : Format → String
  | json => "json"
  | yaml => "yaml"

/-- The format that a word stands for. -/
def ofWord? (w : String) : Option Format := [json, yaml].find? (fun f => f.word = w)

/-- The format of files with an extension. -/
def ofExtension? (extension : String) : Option Format :=
  if extension = "yml" then some yaml else ofWord? extension

end Format

namespace Catalog

/-- The text of a catalog. -/
def print (c : Catalog) : Format → String
  | .json => c.toJson
  | .yaml => c.toYaml

/-- The catalog in a text. -/
def parse : Format → String → Except Error Catalog
  | .json => ofJson
  | .yaml => ofYaml

/-- The catalog in a file. That the file cannot be read is found out before its extension is looked at. -/
def load (files : Files) (path : String) : Except Error Catalog := do
  let text ← files.readText path
  let extension := (Path.extension? path).getD ""
  match Format.ofExtension? extension with
  | some format => parse format text
  | none => .error (.inFile path (.lookup extension "schema file formats (json, yaml, yml)"))

end Catalog
end TableSpec
