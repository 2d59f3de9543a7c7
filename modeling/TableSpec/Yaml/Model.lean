import TableSpec.Document.Model
import TableSpec.Yaml.Reader

/-!
# `TableSpec.Yaml.Model` — catalogs as YAML

## Contents
- `Catalog.toYaml`, `Catalog.ofYaml`.
-/

namespace TableSpec
namespace Catalog

/-- The YAML text of a catalog. -/
def toYaml (c : Catalog) : String := Yaml.print c.toDocument

/-- The catalog in a YAML text. -/
def ofYaml (text : String) : Except Error Catalog := Yaml.decode ofDocument text

end Catalog
end TableSpec
