import TableSpec.Declaration
import TableSpec.Source.Statement
import TableSpec.Table

/-!
# `TableSpec.Extraction` — the table that a specification file declares

Declarations are applied to a table in source order, each on its own. The first that cannot be applied is
an error of the whole file.

## Contents
- `textArgument`, `textListArgument`: the arguments that most declarations have.
- `Table.apply`: one declaration.
- `Table.ofNode`, `Table.ofSource`: the table of a syntax tree and of a source text.
-/

namespace TableSpec

/-! ## Arguments -/

/-- The text that a call has as its first argument. -/
def textArgument (form : Form) (call : Call) : Except Error String :=
  match call.arg? 0 with
  | some (.str s) => .ok s
  | found => .error (.unexpected s!"{form.word} argument 0" "string" (found.map Node.describe))

/-- The texts of a list's elements, the first of which is at position `position`. -/
def textElements (form : Form) : Nat → List Node → Except Error (List String)
  | _, [] => .ok []
  | position, .str s :: rest => (textElements form (position + 1) rest).map (s :: ·)
  | position, node :: _ =>
    .error (.unexpected s!"{form.word} list element {position}" "string" node.describe)

/-- The texts in the list that a call has as its first argument. -/
def textListArgument (form : Form) (call : Call) : Except Error (List String) :=
  match call.arg? 0 with
  | some (.list elements) => textElements form 0 elements
  | found => .error (.unexpected s!"{form.word} argument 0" "list" (found.map Node.describe))

/-- The texts in every list that a call has under the keyword `aliases`; other elements are left out. -/
def aliasKeywords (call : Call) : List String :=
  call.keywords.flatMap fun kw =>
    match kw.2 with
    | .list elements => if kw.1 = "aliases" then elements.filterMap Node.asText? else []
    | _ => []

namespace Table

/-! ## Declarations applied to a table -/

/-- Register a schema under each of its platforms. -/
def addExtendedSchema (t : Table) (s : Schema) : Table :=
  { t with extendedSchemas := s.platforms.toList.foldl (fun m p => m.insert p s) t.extendedSchemas }

/-- Bind every literal keyword of a call as an attribute. -/
def addAttributes (t : Table) (call : Call) : Table :=
  { t with
    attributes := (literalKeywords call.keywords).foldl (fun m e => m.insert e.1 e.2) t.attributes }

/-- Apply a declaration of a known form. -/
def applyForm (t : Table) (form : Form) (call : Call) : Except Error Table :=
  match form with
  | .tableName => do
    let name ← textArgument form call
    return { t with name := name, aliases := t.aliases ++ aliasKeywords call }
  | .description => do
    let text ← textArgument form call
    return { t with description := text }
  | .schema =>
    if t.schema.isSome then .error (.duplicateSchema t.name)
    else do
      let s ← Schema.ofCall call
      return { t with schema := some s }
  | .attributes => .ok (t.addAttributes call)
  | .implementation => do
    let text ← textArgument form call
    return { t with implementation := text }
  | .fuzzPaths => do
    let paths ← textListArgument form call
    return { t with fuzzPaths := t.fuzzPaths ++ paths }
  | .extendedSchema => do
    let s ← Schema.ofCall call
    return t.addExtendedSchema s
  | .examples => do
    let examples ← textListArgument form call
    return { t with examples := t.examples ++ examples }
  | .column | .foreignKey => .ok t

/-- Apply a declaration. Calls outside the vocabulary change nothing. -/
def apply (t : Table) (d : Declaration) : Except Error Table :=
  match d with
  | .known form call => t.applyForm form call
  | .unknown _ | .unnamed => .ok t

/-- The table that a syntax tree declares. It is called `name` unless it says otherwise. -/
def ofNode (name : String) (node : Node) : Except Error Table :=
  (declarations node).foldlM apply { name := name }

/-- The table that a source text declares. `origin` names the text in errors of syntax. -/
def ofSource (name origin text : String) : Except Error Table := do
  let node ← Source.parse origin text
  ofNode name node

end Table
end TableSpec
