import TableSpec.Source.Node

/-!
# `TableSpec.Declaration` — the calls of a specification file

What a specification file says, it says by calls to bare names out of a fixed vocabulary. The calls are
collected in source order before any of them is applied to a table, so that what a call *means* is
decided in one place.

## Contents
- `Form`: the vocabulary, with `Form.word` and `Form.ofWord?`.
- `Declaration`, `Declaration.ofCall`.
- `declarations`: the declarations of a file. Only some calls are searched for further ones.
-/

namespace TableSpec

/-- The vocabulary of specification files. -/
inductive Form where
  | tableName
  | description
  | schema
  | column
  | attributes
  | implementation
  | fuzzPaths
  | extendedSchema
  | examples
  | foreignKey
  deriving DecidableEq, Repr, Inhabited

namespace Form

/-- The name that a call has to have. -/
def word : Form → String
  | tableName => "table_name"
  | description => "description"
  | schema => "schema"
  | column => "Column"
  | attributes => "attributes"
  | implementation => "implementation"
  | fuzzPaths => "fuzz_paths"
  | extendedSchema => "extended_schema"
  | examples => "examples"
  | foreignKey => "ForeignKey"

/-- The whole vocabulary. -/
def all : List Form :=
  [tableName, description, schema, column, attributes, implementation, fuzzPaths, extendedSchema,
   examples, foreignKey]

/-- The form that a name stands for. -/
def ofWord? (name : String) : Option Form := all.find? (fun f => f.word = name)

/-- Whether a call of this form is searched for further declarations. -/
def descends : Form → Bool
  | tableName | description | schema | implementation => true
  | column | attributes | fuzzPaths | extendedSchema | examples | foreignKey => false

theorem ofWord?_word (f : Form) : ofWord? f.word = some f := by
  cases f <;> decide

theorem ofWord?_eq_some {name : String} {f : Form} : ofWord? name = some f ↔ name = f.word := by
  constructor
  · intro h
    have := List.find?_some h
    simpa [eq_comm] using this
  · rintro rfl
    exact ofWord?_word f

end Form

/-- A call, as far as it is in the vocabulary. -/
inductive Declaration where
  | known (form : Form) (call : Call)
  /-- A call to a name outside the vocabulary. -/
  | unknown (callee : String)
  /-- A call to something else than a bare name. -/
  | unnamed
  deriving Repr, Inhabited

namespace Declaration

/-- The declaration that a call is. -/
def ofCall (call : Call) : Declaration :=
  match call.calleeName? with
  | none => unnamed
  | some callee =>
    match Form.ofWord? callee with
    | some form => known form call
    | none => unknown callee

/-- Whether the arguments of the call are searched for further declarations. -/
def descends : Declaration → Bool
  | known form _ => form.descends
  | unknown _ | unnamed => false

/-- The name in the call. -/
def name : Declaration → String
  | known form _ => form.word
  | unknown callee => callee
  | unnamed => "<unnamed>"

/-- The declaration that a node is, if it is a call. -/
def ofNode? (node : Node) : Option Declaration := node.asCall?.map ofCall

end Declaration

/-- The declarations in a syntax tree, in source order. -/
def declarations (node : Node) : List Declaration :=
  (node.walk (fun n => ((Declaration.ofNode? n).map Declaration.descends).getD true)).filterMap
    Declaration.ofNode?

end TableSpec
