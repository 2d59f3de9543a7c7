import TableSpec.Document.Model
import TableSpec.Json.Printer
import TableSpec.Json.Reader

/-!
# `TableSpec.Json.Model` — catalogs as JSON

## Contents
- `Catalog.toJson`, `Catalog.ofJson`.
-/

namespace TableSpec
namespace Catalog

/-- The JSON text of a catalog. -/
def toJson (c : Catalog) : String := Json.pretty c.toDocument

/-- The catalog in a JSON text. -/
def ofJson (text : String) : Except Error Catalog := Json.decode ofDocument text

end Catalog
end TableSpec
